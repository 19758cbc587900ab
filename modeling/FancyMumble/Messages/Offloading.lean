import FancyMumble.Lib.Decimal
import FancyMumble.Lib.FirstMatch
import FancyMumble.Messages.Edits
import FancyMumble.Messages.LocalCache

/-!
# Offloaded messages

The body of a message can be moved to an encrypted file and back. In memory a placeholder
stands for it, while the message can be edited, replaced and deleted like any other one.
-/

namespace FancyMumble.Messages.Offloading

open Lib.FirstMatch Lib.Runs
open Messages.LocalCache (WriteOutcome nonceLen take_append_sealed write)

/-! ## Files -/

/-- Texts as bytes, ChaCha20-Poly1305 with the key of the session, and the letters and digits of
Unicode. What is sealed can be opened, but no part of it. -/
structure Platform where
  Byte : Type
  asBytes : String → List Byte
  fromUtf8 : List Byte → Except String String
  sealInPlace : Vector Byte nonceLen → List Byte → Option (List Byte)
  openInPlace : Vector Byte nonceLen → List Byte → Option (List Byte)
  isAlphanumeric : Char → Bool
  fromUtf8_asBytes : ∀ text, fromUtf8 (asBytes text) = .ok text
  seal_ne_nil : ∀ nonce plain, sealInPlace nonce plain ≠ some []
  open_seal : ∀ nonce plain sealed, sealInPlace nonce plain = some sealed →
    openInPlace nonce sealed = some plain
  cut_off : ∀ nonce plain sealed n, sealInPlace nonce plain = some sealed →
    n < sealed.length → openInPlace nonce (sealed.take n) = none

structure Io where
  readError : String → Option String := fun _ => none
  notFound : String := "No such file or directory (os error 2)"
  removeFails : String → Bool := fun _ => false

variable {platform : Platform}

def encrypt (rng : Option (Vector platform.Byte nonceLen)) (plaintext : List platform.Byte) :
    Except String (List platform.Byte) :=
  match rng with
  | none => .error "Failed to generate nonce"
  | some nonce =>
      match platform.sealInPlace nonce plaintext with
      | none => .error "Encryption failed"
      | some sealed => .ok (nonce.toList ++ sealed)

def decrypt (fileData : List platform.Byte) : Except String (List platform.Byte) :=
  if h : fileData.length ≤ nonceLen then .error "Corrupted offload file: too short"
  else
    let nonce : Vector platform.Byte nonceLen :=
      ⟨(fileData.take nonceLen).toArray, by simp; omega⟩
    match platform.openInPlace nonce (fileData.drop nonceLen) with
    | none => .error "Decryption failed (file may be corrupted or from another session)"
    | some plaintext => .ok plaintext

/-- `EncryptedFileProvider`: the files in its directory. -/
structure EncryptedFileProvider (platform : Platform) where
  files : String → Option (List platform.Byte) := fun _ => none

variable (platform) in
def filePath (key : String) : String :=
  String.ofList (key.toList.map fun c =>
    if platform.isAlphanumeric c || c == '-' || c == '_' then c else '_') ++ ".enc"

namespace EncryptedFileProvider

def store (provider : EncryptedFileProvider platform) (key content : String)
    (rng : Option (Vector platform.Byte nonceLen)) (outcome : WriteOutcome) :
    EncryptedFileProvider platform × Except String Unit :=
  match encrypt rng (platform.asBytes content) with
  | .error e => (provider, .error e)
  | .ok fileData =>
      let path := filePath platform key
      let (file, written) := write outcome (provider.files path) fileData
      ({ files := Function.update provider.files path file },
        written.mapError ("Failed to write offload file: " ++ ·))

def load (provider : EncryptedFileProvider platform) (io : Io) (key : String) :
    Except String String :=
  let path := filePath platform key
  match io.readError path, provider.files path with
  | some e, _ => .error ("Failed to read offload file: " ++ e)
  | none, none => .error ("Failed to read offload file: " ++ io.notFound)
  | none, some fileData =>
      match decrypt fileData with
      | .error e => .error e
      | .ok plaintext =>
          (platform.fromUtf8 plaintext).mapError
            ("Decrypted content is not valid UTF-8: " ++ ·)

def loadMany (provider : EncryptedFileProvider platform) (io : Io) (keys : List String) :
    List (String × Except String String) :=
  keys.dedup.map fun key => (key, provider.load io key)

def remove (provider : EncryptedFileProvider platform) (io : Io) (key : String) :
    EncryptedFileProvider platform :=
  let path := filePath platform key
  { files :=
      if io.removeFails path then provider.files
      else Function.update provider.files path none }

def clear (provider : EncryptedFileProvider platform) (io : Io) :
    EncryptedFileProvider platform where
  files path := if io.removeFails path then provider.files path else none

end EncryptedFileProvider

/-! ## Messages -/

/-- A `ChatMessage`, with its id and its body. The latest body that was written, received or
edited is recorded for the statements only. -/
structure Row where
  messageId : Option String
  body : String
  latest : String

def Row.new (messageId : Option String) (body : String) : Row := ⟨messageId, body, body⟩

def Row.edit (newBody : String) (row : Row) : Row :=
  { row with body := newBody, latest := newBody }

def Row.setBody (body : String) (row : Row) : Row := { row with body }

theorem Row.messageId_setBody (body : String) (row : Row) :
    (row.setBody body).messageId = row.messageId := rfl

/-- `SharedState`, with the messages of the threads and the offload store. -/
structure SharedState (platform : Platform) where
  threads : Thread → Option (List Row) := fun _ => none
  offloadStore : Option (EncryptedFileProvider platform) := none

def parseU32 (text : String) : Option UInt32 :=
  (Decimal.parse (2 ^ 32) text.toList).map UInt32.ofNat

def findThread (scope scopeId : String) : Except String Thread :=
  if scope = "channel" then
    match parseU32 scopeId with
    | some chId => .ok (.channel chId)
    | none => .error "Invalid channel ID"
  else if scope = "dm" then
    match parseU32 scopeId with
    | some session => .ok (.direct session)
    | none => .error "Invalid DM session"
  else .error ("Unknown scope: " ++ scope)

def setThread (scope scopeId : String) : Option Thread :=
  if scope = "channel" then some (.channel ((parseU32 scopeId).getD 0))
  else if scope = "dm" then some (.direct ((parseU32 scopeId).getD 0))
  else none

def startsWithPlaceholder (body : String) : Bool :=
  "<!-- OFFLOADED:".toList.isPrefixOf body.toList

def placeholder (messageId : String) (contentLen : ℕ) : String :=
  "<!-- OFFLOADED:" ++ messageId ++ ":" ++ toString contentLen ++ " -->"

namespace SharedState

def findMessageBody (state : SharedState platform) (scope scopeId messageId : String) :
    Except String String :=
  match findThread scope scopeId with
  | .error e => .error e
  | .ok t =>
      match state.threads t with
      | none => .error "No messages found for scope"
      | some messages =>
          match first Row.messageId messageId messages with
          | none => .error "Message not found"
          | some msg => .ok msg.body

def mapThread (state : SharedState platform) (t : Thread) (f : List Row → List Row) :
    SharedState platform :=
  { state with threads := Function.update state.threads t ((state.threads t).map f) }

def setMessageBody (state : SharedState platform) (scope scopeId messageId body : String) :
    SharedState platform :=
  match setThread scope scopeId with
  | none => state
  | some t => state.mapThread t (modifyFirst Row.messageId messageId (Row.setBody body))

def offloadMessage (state : SharedState platform) (messageId scope scopeId : String)
    (rng : Option (Vector platform.Byte nonceLen)) (outcome : WriteOutcome) :
    SharedState platform × Except String Unit :=
  match state.findMessageBody scope scopeId messageId with
  | .error e => (state, .error e)
  | .ok body =>
      if startsWithPlaceholder body then (state, .ok ())
      else
        match state.offloadStore with
        | none => (state, .error "Offload store not initialised")
        | some store =>
            match store.store messageId body rng outcome with
            | (store, .error e) => ({ state with offloadStore := some store }, .error e)
            | (store, .ok ()) =>
                ({ state with offloadStore := some store }.setMessageBody scope scopeId messageId
                  (placeholder messageId body.utf8ByteSize), .ok ())

def loadOffloadedMessage (state : SharedState platform) (messageId scope scopeId : String)
    (io : Io) : SharedState platform × Except String String :=
  match state.offloadStore with
  | none => (state, .error "Offload store not initialised")
  | some store =>
      match store.load io messageId with
      | .error e => (state, .error e)
      | .ok body =>
          ({ state with offloadStore := some (store.remove io messageId) }.setMessageBody scope
            scopeId messageId body, .ok body)

def loadOffloadedMessagesBatch (state : SharedState platform) (messageIds : List String)
    (scope scopeId : String) (io : Io) :
    SharedState platform × Except String (List (String × String)) :=
  match state.offloadStore with
  | none => (state, .error "Offload store not initialised")
  | some store =>
      let results := store.loadMany io messageIds
      let restored := results.filterMap fun result =>
        result.2.toOption.map fun body => (result.1, body)
      let store := restored.foldl (fun store entry => store.remove io entry.1) store
      (restored.foldl
        (fun state entry => state.setMessageBody scope scopeId entry.1 entry.2)
        { state with offloadStore := some store }, .ok restored)

def clearOffloaded (state : SharedState platform) (io : Io) : SharedState platform :=
  { state with offloadStore := state.offloadStore.map (·.clear io) }

/-! ## Events -/

def rows (state : SharedState platform) (t : Thread) : List Row := (state.threads t).getD []

def setRows (state : SharedState platform) (t : Thread) (f : List Row → List Row) :
    SharedState platform :=
  { state with threads := Function.update state.threads t (some (f (state.rows t))) }

end SharedState

/-- What happens to the messages of a session and to their bodies. -/
inductive Event (platform : Platform) where
  | offload (messageId scope scopeId : String) (rng : Option (Vector platform.Byte nonceLen))
      (outcome : WriteOutcome)
  | load (messageId scope scopeId : String) (io : Io)
  | loadBatch (messageIds : List String) (scope scopeId : String) (io : Io)
  | clear (io : Io)
  /-- A message arrives at the end of its thread, which is trimmed. -/
  | pushed (t : Thread) (messageId : Option String) (body : String)
  /-- A message arrives at its place in the thread. -/
  | inserted (t : Thread) (pos : ℕ) (messageId : Option String) (body : String)
  | replaced (t : Thread) (messageId : String) (replacesId : Option String) (body : String)
  /-- `apply_edit`, of an edit that is received or an own one. -/
  | edited (t : Thread) (editId newBody : String)
  /-- Messages are deleted: only those at some places are kept. -/
  | retained (t : Thread) (keep : ℕ → Bool)
  | removed (t : Thread)

def Event.MovesBodies : Event platform → Prop
  | .offload .. | .load .. | .loadBatch .. | .clear _ => True
  | _ => False

namespace SharedState

def step (state : SharedState platform) : Event platform → SharedState platform
  | .offload messageId scope scopeId rng outcome =>
      (state.offloadMessage messageId scope scopeId rng outcome).1
  | .load messageId scope scopeId io => (state.loadOffloadedMessage messageId scope scopeId io).1
  | .loadBatch messageIds scope scopeId io =>
      (state.loadOffloadedMessagesBatch messageIds scope scopeId io).1
  | .clear io => state.clearOffloaded io
  | .pushed t messageId body => state.setRows t fun messages =>
      pushCapped messages (.new messageId body)
  | .inserted t pos messageId body => state.setRows t fun messages =>
      messages.insertIdx pos (.new messageId body)
  | .replaced t messageId replacesId body => state.setRows t fun messages =>
      insertOrReplaceMessage Row.messageId messages messageId replacesId
        (.new (some messageId) body)
  | .edited t editId newBody =>
      state.mapThread t (modifyFirst Row.messageId editId (Row.edit newBody))
  | .retained t keep => state.mapThread t fun messages =>
      (messages.zipIdx.filter fun m => keep m.2).map Prod.fst
  | .removed t => { state with threads := Function.update state.threads t none }

end SharedState

/-! ## Transparency -/

def Row.Away (row : Row) : Prop := row.body ≠ row.latest

def opensTo (fileData : List platform.Byte) : Option String :=
  (decrypt fileData).toOption.bind fun plaintext => (platform.fromUtf8 plaintext).toOption

def EncryptedFileProvider.opens (provider : EncryptedFileProvider platform) (path : String) :
    Option String :=
  (provider.files path).bind opensTo

namespace SharedState

def opens (state : SharedState platform) (path : String) : Option String :=
  state.offloadStore.bind (·.opens path)

/-- A row shows its latest body, or the placeholder, and its file opens to the body. -/
def KeepsBody (state : SharedState platform) (row : Row) : Prop :=
  row.Away → ∃ messageId, row.messageId = some messageId ∧
    row.body = placeholder messageId row.latest.utf8ByteSize ∧
    state.opens (filePath platform messageId) = some row.latest

def Intact (state : SharedState platform) : Prop :=
  ∀ t, ∀ row ∈ state.rows t, state.KeepsBody row

/-- A message that was offloaded can be opened, a body that is given back is the latest one, and
what fails leaves the messages as they are. -/
def Answers (state : SharedState platform) : Event platform → Prop
  | .offload messageId scope scopeId rng outcome =>
      match state.offloadMessage messageId scope scopeId rng outcome with
      | (state', .error _) => state'.threads = state.threads
      | (state', .ok ()) =>
          ∀ t, findThread scope scopeId = .ok t →
            ∀ row ∈ first Row.messageId messageId (state.rows t),
              state'.opens (filePath platform messageId) = some row.latest
  | .load messageId scope scopeId io =>
      match state.loadOffloadedMessage messageId scope scopeId io with
      | (state', .error _) => state'.threads = state.threads
      | (_, .ok body) =>
          ∀ t ∈ setThread scope scopeId,
            ∀ row ∈ first Row.messageId messageId (state.rows t), body = row.latest
  | .loadBatch messageIds scope scopeId io =>
      match state.loadOffloadedMessagesBatch messageIds scope scopeId io with
      | (state', .error _) => state'.threads = state.threads
      | (_, .ok restored) =>
          ∀ entry ∈ restored, ∀ t ∈ setThread scope scopeId,
            ∀ row ∈ first Row.messageId entry.1 (state.rows t), entry.2 = row.latest
  | _ => True

/-- An event does not show that bodies are elsewhere. -/
structure Transparent (state : SharedState platform) (event : Event platform) : Prop where
  intact : (state.step event).Intact
  answers : state.Answers event

/-! ## When the bodies are kept -/

def written (rng : Option (Vector platform.Byte nonceLen)) (outcome : WriteOutcome)
    (content : String) : Option (Option String) :=
  match encrypt rng (platform.asBytes content), outcome with
  | .error _, _ => none
  | .ok _, .notOpened _ => none
  | .ok _, .complete => some (some content)
  | .ok _, .cutOff _ _ => some none

def readable (state : SharedState platform) (io : Io) (messageId : String) : Option String :=
  match io.readError (filePath platform messageId) with
  | some _ => none
  | none => state.opens (filePath platform messageId)

def found (state : SharedState platform) (io : Io) (messageIds : List String) :
    List (String × String) :=
  messageIds.dedup.filterMap fun id => (state.readable io id).map fun body => (id, body)

def unrestored (state : SharedState platform) (restored : List String) (target : Option Thread)
    (t : Thread) : List Row :=
  if target = some t then othersAll Row.messageId restored (state.rows t) else state.rows t

/-- The first row with an id that was found shows its placeholder, or the body that was found.
Of the other rows, none is away whose file is removed. -/
structure KeepsRestored (state : SharedState platform) (io : Io) (messageIds : List String)
    (target : Option Thread) : Prop where
  current : ∀ entry ∈ state.found io messageIds, ∀ t ∈ target,
    ∀ row ∈ first Row.messageId entry.1 (state.rows t), row.Away ∨ entry.2 = row.body
  others : ∀ t, ∀ row ∈ state.unrestored ((state.found io messageIds).map Prod.fst) target t,
    row.Away → ∀ id ∈ row.messageId, ∀ entry ∈ state.found io messageIds,
      filePath platform id = filePath platform entry.1 →
        io.removeFails (filePath platform entry.1)

/-- Of the rows that are away, none has its file overwritten with another body or removed. A body
that starts like a placeholder is one, and a row that a body is given back to shows its
placeholder. -/
def KeepsTransparent (state : SharedState platform) : Event platform → Prop
  | .offload messageId scope scopeId rng outcome =>
      ∀ t, findThread scope scopeId = .ok t →
        ∀ row ∈ first Row.messageId messageId (state.rows t),
          match startsWithPlaceholder row.body with
          | true => state.opens (filePath platform messageId) = some row.latest
          | false =>
              state.offloadStore.isSome → ∀ opened ∈ written rng outcome row.body,
                ∀ t', ∀ other ∈ state.rows t', other.Away → ∀ id ∈ other.messageId,
                  filePath platform id = filePath platform messageId →
                    opened = some other.latest
  | .load messageId scope scopeId io =>
      state.KeepsRestored io [messageId] (setThread scope scopeId)
  | .loadBatch messageIds scope scopeId io =>
      state.KeepsRestored io messageIds (setThread scope scopeId)
  | .clear io => ∀ t, ∀ row ∈ state.rows t, row.Away → ∀ id ∈ row.messageId,
      io.removeFails (filePath platform id)
  | _ => True

end SharedState

/-! ## A platform -/

inductive SealedByte where
  | text (s : String)
  | sealed (plain : List SealedByte)

def sealingPlatform : Platform where
  Byte := SealedByte
  asBytes text := [.text text]
  fromUtf8
    | [.text text] => .ok text
    | _ => .error "invalid utf-8 sequence"
  sealInPlace _ plain := some [.sealed plain]
  openInPlace
    | _, [.sealed plain] => some plain
    | _, _ => none
  isAlphanumeric := Char.isAlphanum
  fromUtf8_asBytes _ := rfl
  seal_ne_nil := nofun
  open_seal nonce plain sealed h := by
    cases h
    rfl
  cut_off nonce plain sealed n h hn := by
    cases h
    have hn : n < 1 := hn
    cases Nat.lt_one_iff.mp hn
    rfl

/-! ## What the files open to -/

namespace EncryptedFileProvider

variable (provider : EncryptedFileProvider platform)

theorem toOption_load (io : Io) (key : String) :
    (provider.load io key).toOption =
      match io.readError (filePath platform key) with
      | some _ => none
      | none => provider.opens (filePath platform key) := by
  unfold load opens
  dsimp only
  cases io.readError (filePath platform key) with
  | some e => rfl
  | none =>
      cases provider.files (filePath platform key) with
      | none => rfl
      | some fileData =>
          change Except.toOption (match decrypt fileData with
            | .error e => _
            | .ok plaintext => _) = opensTo fileData
          unfold opensTo
          cases decrypt fileData with
          | error e => rfl
          | ok plaintext =>
              change Except.toOption ((platform.fromUtf8 plaintext).mapError _) =
                (platform.fromUtf8 plaintext).toOption
              cases platform.fromUtf8 plaintext <;> rfl

theorem opens_update (file : Option (List platform.Byte)) (changed path : String) :
    ({ files := Function.update provider.files changed file } :
      EncryptedFileProvider platform).opens path =
        if path = changed then file.bind opensTo else provider.opens path := by
  unfold opens
  dsimp only
  rw [Function.update_apply]
  split <;> rfl

theorem opens_remove (io : Io) (key path : String) :
    (provider.remove io key).opens path =
      if path = filePath platform key ∧ io.removeFails (filePath platform key) = false then none
      else provider.opens path := by
  unfold remove
  dsimp only
  cases io.removeFails (filePath platform key) with
  | true => exact (if_neg fun h => nomatch h.2).symm
  | false => simpa using provider.opens_update none (filePath platform key) path

theorem opens_clear (io : Io) (path : String) :
    (provider.clear io).opens path =
      if io.removeFails path then provider.opens path else none := by
  unfold clear opens
  dsimp only
  split <;> rfl

end EncryptedFileProvider

theorem decrypt_append (nonce : Vector platform.Byte nonceLen) {data : List platform.Byte}
    (hdata : data ≠ []) :
    decrypt (nonce.toList ++ data) =
      match platform.openInPlace nonce data with
      | none => .error "Decryption failed (file may be corrupted or from another session)"
      | some plaintext => .ok plaintext := by
  have hlength : nonce.toList.length = nonceLen := by simp
  have hpositive := List.length_pos_iff.mpr hdata
  have hlong : ¬(nonce.toList ++ data).length ≤ nonceLen := by
    rw [List.length_append]
    omega
  unfold decrypt
  rw [dif_neg hlong]
  have hnonce : (nonce.toList ++ data).take nonceLen = nonce.toList := List.take_left' hlength
  have hrest : (nonce.toList ++ data).drop nonceLen = data := List.drop_left' hlength
  simp only [hnonce, hrest]
  rfl

theorem opensTo_encrypt {rng : Option (Vector platform.Byte nonceLen)} {content : String}
    {fileData : List platform.Byte}
    (h : encrypt rng (platform.asBytes content) = .ok fileData) :
    opensTo fileData = some content ∧ ∀ n, opensTo (fileData.dropLast.take n) = none := by
  unfold encrypt at h
  split at h
  next => cases h
  next nonce =>
    split at h
    next => cases h
    next sealed hsealed =>
      cases h
      have hne : sealed ≠ [] := fun hnil =>
        platform.seal_ne_nil _ _ (hsealed.trans (congrArg some hnil))
      constructor
      · unfold opensTo
        rw [decrypt_append nonce hne, platform.open_seal _ _ _ hsealed]
        change (platform.fromUtf8 (platform.asBytes content)).toOption = some content
        rw [platform.fromUtf8_asBytes]
        rfl
      · intro n
        have hshort (data : List platform.Byte) (h : data.length ≤ nonceLen) :
            opensTo data = none := by
          unfold opensTo decrypt
          rw [dif_pos h]
          rfl
        obtain hlt | ⟨m, hm, heq⟩ := take_append_sealed nonce sealed n
        · exact hshort _ hlt.le
        · rw [heq]
          by_cases hnil : sealed.take m = []
          · exact hshort _ (by rw [hnil, List.append_nil, Vector.length_toList])
          · unfold opensTo
            rw [decrypt_append nonce hnil, platform.cut_off _ _ _ _ hsealed hm]
            rfl

namespace EncryptedFileProvider

theorem opens_store (provider : EncryptedFileProvider platform) (key content : String)
    (rng : Option (Vector platform.Byte nonceLen)) (outcome : WriteOutcome) :
    (∀ path, (provider.store key content rng outcome).1.opens path =
      match SharedState.written rng outcome content with
      | none => provider.opens path
      | some opened => if path = filePath platform key then opened else provider.opens path) ∧
      ((provider.store key content rng outcome).2 = .ok () ↔
        SharedState.written rng outcome content = some (some content)) := by
  unfold store SharedState.written
  cases hencrypt : encrypt rng (platform.asBytes content) with
  | error e => exact ⟨fun _ => rfl, nofun, nofun⟩
  | ok fileData =>
      obtain ⟨hwhole, hpart⟩ := opensTo_encrypt hencrypt
      cases outcome with
      | complete =>
          refine ⟨fun path => ?_, fun _ => rfl, fun _ => rfl⟩
          rw [← hwhole]
          exact provider.opens_update (some fileData) (filePath platform key) path
      | notOpened e =>
          refine ⟨fun path => ?_, nofun, nofun⟩
          refine (provider.opens_update _ (filePath platform key) path).trans ?_
          by_cases hpath : path = filePath platform key
          · subst hpath
            exact if_pos rfl
          · exact if_neg hpath
      | cutOff n e =>
          refine ⟨fun path => ?_, nofun, nofun⟩
          rw [← hpart n]
          exact provider.opens_update (some (fileData.dropLast.take n)) (filePath platform key) path

end EncryptedFileProvider

/-! ## What a step preserves -/

namespace SharedState

variable {state state' : SharedState platform} {row : Row}

theorem rows_setRows (t t' : Thread) (f : List Row → List Row) :
    (state.setRows t f).rows t' = if t' = t then f (state.rows t) else state.rows t' := by
  unfold setRows rows
  dsimp only
  rw [Function.update_apply]
  split <;> rfl

theorem rows_mapThread (t t' : Thread) {f : List Row → List Row} (hf : f [] = []) :
    (state.mapThread t f).rows t' = if t' = t then f (state.rows t) else state.rows t' := by
  unfold mapThread rows
  dsimp only
  rw [Function.update_apply]
  split
  next =>
    cases state.threads t with
    | none => exact hf.symm
    | some messages => rfl
  next => rfl

theorem keepsBody_iff (h : state.KeepsBody row) :
    state'.KeepsBody row ↔
      (row.Away → ∀ id ∈ row.messageId,
        state'.opens (filePath platform id) = some row.latest) := by
  refine forall_congr' fun haway => ?_
  obtain ⟨id, hid, hbody, -⟩ := h haway
  constructor
  · rintro ⟨id', hid', -, hopens⟩ other hother
    cases hid'.symm.trans hother
    exact hopens
  · intro hopens
    exact ⟨id, hid, hbody, hopens id hid⟩

theorem keepsBody_changed_iff {Changed : String → Prop} [∀ path, Decidable (Changed path)]
    {opened : Option String}
    (hopens : ∀ path, state'.opens path = if Changed path then opened else state.opens path)
    (h : state.KeepsBody row) :
    state'.KeepsBody row ↔
      (row.Away → ∀ id ∈ row.messageId, Changed (filePath platform id) →
        opened = some row.latest) := by
  rw [keepsBody_iff h]
  refine forall_congr' fun haway => forall₂_congr fun id hid => ?_
  obtain ⟨id', hid', -, hopens'⟩ := h haway
  cases hid'.symm.trans hid
  rw [hopens]
  split
  next hchanged => exact ⟨fun heq _ => heq, fun heq => heq hchanged⟩
  next hunchanged => exact ⟨fun _ hchanged => absurd hchanged hunchanged, fun _ => hopens'⟩

theorem Intact.of_rows (h : state.Intact) (hopens : ∀ path, state'.opens path = state.opens path)
    (hrows : ∀ t, ∀ row ∈ state'.rows t, row ∈ state.rows t ∨ row.body = row.latest) :
    state'.Intact := by
  intro t row hrow haway
  obtain hold | hshown := hrows t row hrow
  · obtain ⟨id, hid, hbody, hopens'⟩ := h t row hold haway
    exact ⟨id, hid, hbody, (hopens _).trans hopens'⟩
  · exact absurd hshown haway

theorem Intact.setRows (h : state.Intact) (t : Thread) {f : List Row → List Row}
    (hf : ∀ row ∈ f (state.rows t), row ∈ state.rows t ∨ row.body = row.latest) :
    (state.setRows t f).Intact := by
  refine h.of_rows (fun _ => rfl) fun t' row hrow => ?_
  rw [rows_setRows] at hrow
  split at hrow
  next heq =>
    subst heq
    exact hf row hrow
  next => exact .inl hrow

theorem Intact.mapThread (h : state.Intact) (t : Thread) {f : List Row → List Row}
    (hnil : f [] = [])
    (hf : ∀ row ∈ f (state.rows t), row ∈ state.rows t ∨ row.body = row.latest) :
    (state.mapThread t f).Intact := by
  refine h.of_rows (fun _ => rfl) fun t' row hrow => ?_
  rw [rows_mapThread t t' hnil] at hrow
  split at hrow
  next heq =>
    subst heq
    exact hf row hrow
  next => exact .inl hrow

end SharedState

theorem mem_pushCapped {messages : List Row} {msg row : Row} (h : row ∈ pushCapped messages msg) :
    row ∈ messages ∨ row = msg := by
  have hmem := List.mem_of_mem_drop h
  rwa [List.mem_append, List.mem_singleton] at hmem

theorem mem_insertOrReplaceMessage {messages : List Row} {messageId : String}
    {replacesId : Option String} {msg row : Row}
    (h : row ∈ insertOrReplaceMessage Row.messageId messages messageId replacesId msg) :
    row ∈ messages ∨ row = msg := by
  unfold insertOrReplaceMessage at h
  split at h
  next => exact List.mem_or_eq_of_mem_set h
  next =>
    unfold insertNew at h
    split at h
    next => exact .inl h
    next => exact mem_pushCapped h

namespace SharedState

variable {state state' : SharedState platform} {messageId scope scopeId : String}

theorem Intact.step {event : Event platform} (h : state.Intact) (hlist : ¬event.MovesBodies) :
    (state.step event).Intact := by
  cases event with
  | offload | load | loadBatch | clear => exact absurd trivial hlist
  | pushed t id body =>
      change (state.setRows t fun messages => pushCapped messages (.new id body)).Intact
      apply h.setRows t
      intro row hrow
      refine (mem_pushCapped hrow).imp_right ?_
      rintro rfl
      rfl
  | inserted t pos id body =>
      apply h.setRows t
      intro row hrow
      by_cases hpos : pos ≤ (state.rows t).length
      · refine ((List.mem_insertIdx hpos).mp hrow).symm.imp_right ?_
        rintro rfl
        rfl
      · exact .inl (List.insertIdx_of_length_lt (Nat.lt_of_not_le hpos) ▸ hrow)
  | replaced t id replacesId body =>
      change (state.setRows t fun messages =>
        insertOrReplaceMessage Row.messageId messages id replacesId (.new (some id) body)).Intact
      apply h.setRows t
      intro row hrow
      refine (mem_insertOrReplaceMessage hrow).imp_right ?_
      rintro rfl
      rfl
  | edited t editId newBody =>
      refine h.mapThread t rfl ((forall_mem_modifyFirst editId _ _).mpr ⟨?_, ?_⟩)
      · exact fun _ _ => .inr rfl
      · exact fun row hrow => .inl (others_subset _ _ hrow)
  | retained t keep =>
      refine h.mapThread t rfl fun row hrow => .inl ?_
      obtain ⟨entry, hentry, rfl⟩ := List.mem_map.mp hrow
      exact List.fst_mem_of_mem_zipIdx (List.mem_of_mem_filter hentry)
  | removed t =>
      refine h.of_rows (fun _ => rfl) fun t' row hrow => .inl ?_
      by_cases heq : t' = t
      · subst heq
        simp [SharedState.step, rows] at hrow
      · simpa [SharedState.step, rows, heq] using hrow

/-! ### Offloading -/

theorem findMessageBody_eq_ok {body : String} :
    state.findMessageBody scope scopeId messageId = .ok body ↔
      ∃ t row, findThread scope scopeId = .ok t ∧
        first Row.messageId messageId (state.rows t) = some row ∧ row.body = body := by
  unfold findMessageBody rows
  cases findThread scope scopeId with
  | error e => simp
  | ok t =>
      cases hthread : state.threads t with
      | none => simp [hthread, first]
      | some messages =>
          cases hfirst : first Row.messageId messageId messages with
          | none => simp [hthread, hfirst]
          | some msg => simp [hthread, hfirst]

theorem setThread_of_findThread {t : Thread} (h : findThread scope scopeId = .ok t) :
    setThread scope scopeId = some t := by
  unfold findThread at h
  unfold setThread
  split at h
  next hchannel =>
    rw [if_pos hchannel]
    cases hparse : parseU32 scopeId with
    | none => simp [hparse] at h
    | some id =>
        rw [hparse] at h
        cases h
        rfl
  next hchannel =>
    rw [if_neg hchannel]
    split at h
    next hdm =>
      rw [if_pos hdm]
      cases hparse : parseU32 scopeId with
      | none => simp [hparse] at h
      | some id =>
          rw [hparse] at h
          cases h
          rfl
    next => cases h

theorem startsWithPlaceholder_placeholder (id : String) (contentLen : ℕ) :
    startsWithPlaceholder (placeholder id contentLen) = true := by
  unfold startsWithPlaceholder placeholder
  simp only [String.toList_append, List.append_assoc]
  exact List.isPrefixOf_iff_prefix.mpr (List.prefix_append _ _)

variable (state messageId scope scopeId) in
theorem offloadMessage_cases (rng : Option (Vector platform.Byte nonceLen))
    (outcome : WriteOutcome) :
    (∃ e, state.offloadMessage messageId scope scopeId rng outcome = (state, .error e) ∧
      ∀ t, findThread scope scopeId = .ok t →
        ∀ row ∈ first Row.messageId messageId (state.rows t),
          startsWithPlaceholder row.body = false ∧ state.offloadStore = none) ∨
    ∃ t row, findThread scope scopeId = .ok t ∧
      first Row.messageId messageId (state.rows t) = some row ∧
      (startsWithPlaceholder row.body = true ∧
          state.offloadMessage messageId scope scopeId rng outcome = (state, .ok ()) ∨
        startsWithPlaceholder row.body = false ∧ state.offloadStore.isSome ∧
          ∃ stored : SharedState platform, stored.threads = state.threads ∧
            (∀ path, stored.opens path =
              match written rng outcome row.body with
              | none => state.opens path
              | some opened =>
                  if path = filePath platform messageId then opened else state.opens path) ∧
            ((∃ e, state.offloadMessage messageId scope scopeId rng outcome =
                (stored, .error e)) ∨
              written rng outcome row.body = some (some row.body) ∧
              state.offloadMessage messageId scope scopeId rng outcome =
                (stored.mapThread t (modifyFirst Row.messageId messageId
                  (Row.setBody (placeholder messageId row.body.utf8ByteSize))), .ok ()))) := by
  unfold offloadMessage
  cases hfind : state.findMessageBody scope scopeId messageId with
  | error e =>
      refine .inl ⟨e, rfl, fun t ht row hrow => ?_⟩
      exact nomatch hfind.symm.trans (findMessageBody_eq_ok.mpr ⟨t, row, ht, hrow, rfl⟩)
  | ok body =>
      obtain ⟨t, row, ht, hrow, rfl⟩ := findMessageBody_eq_ok.mp hfind
      dsimp only
      cases hplaceholder : startsWithPlaceholder row.body with
      | true => exact .inr ⟨t, row, ht, hrow, .inl ⟨hplaceholder, if_pos rfl⟩⟩
      | false =>
          rw [if_neg Bool.false_ne_true]
          cases hstore : state.offloadStore with
          | none =>
              refine .inl ⟨_, rfl, fun t' ht' row' hrow' => ?_⟩
              cases ht.symm.trans ht'
              cases hrow.symm.trans hrow'
              exact ⟨hplaceholder, rfl⟩
          | some store =>
              refine .inr ⟨t, row, ht, hrow, .inr ⟨hplaceholder, rfl, ?_⟩⟩
              obtain ⟨hopens, hok⟩ := store.opens_store messageId row.body rng outcome
              have hold (path : String) : state.opens path = store.opens path := by
                unfold opens
                rw [hstore]
                rfl
              dsimp only
              cases hresult : store.store messageId row.body rng outcome with
              | mk store' result =>
              rw [hresult] at hopens hok
              refine ⟨{ state with offloadStore := some store' }, rfl, fun path => ?_, ?_⟩
              · rw [hold]
                exact hopens path
              · cases result with
                | error e => exact .inl ⟨e, rfl⟩
                | ok =>
                    refine .inr ⟨hok.mp rfl, ?_⟩
                    dsimp only
                    unfold setMessageBody
                    rw [setThread_of_findThread ht]

theorem Intact.shown_of_not_placeholder (h : state.Intact) {t : Thread} {row : Row}
    (hrow : row ∈ state.rows t) (hplaceholder : startsWithPlaceholder row.body = false) :
    row.body = row.latest := by
  by_contra haway
  obtain ⟨id, -, hbody, -⟩ := h t row hrow haway
  rw [hbody, startsWithPlaceholder_placeholder] at hplaceholder
  cases hplaceholder

theorem intact_written_iff (h : state.Intact) {stored : SharedState platform}
    {writes : Option (Option String)} (hthreads : stored.threads = state.threads)
    (hopens : ∀ path, stored.opens path =
      match writes with
      | none => state.opens path
      | some opened => if path = filePath platform messageId then opened else state.opens path) :
    stored.Intact ↔ ∀ opened ∈ writes, ∀ t', ∀ other ∈ state.rows t', other.Away →
      ∀ id ∈ other.messageId, filePath platform id = filePath platform messageId →
        opened = some other.latest := by
  have hrows (t' : Thread) : stored.rows t' = state.rows t' :=
    congrArg (fun threads => (threads t').getD []) hthreads
  cases writes with
  | none =>
      refine iff_of_true (h.of_rows hopens fun t' other hother => .inl ?_) nofun
      rwa [← hrows]
  | some opened =>
      calc
        stored.Intact ↔ ∀ t', ∀ other ∈ state.rows t', other.Away →
            ∀ id ∈ other.messageId, filePath platform id = filePath platform messageId →
              opened = some other.latest := by
          refine forall_congr' fun t' => ?_
          rw [hrows]
          exact forall₂_congr fun other hother => keepsBody_changed_iff hopens (h t' other hother)
        _ ↔ _ := by simp

/-- The placeholder of a message is as long as its body, which its file opens to. -/
theorem intact_placeholder_iff (h : state.Intact) (stored : SharedState platform)
    {t : Thread} {row : Row}
    (hrow : first Row.messageId messageId (state.rows t) = some row)
    (hshown : row.body = row.latest) (hthreads : stored.threads = state.threads)
    (hopens : ∀ path, stored.opens path =
      if path = filePath platform messageId then some row.body else state.opens path) :
    (stored.mapThread t (modifyFirst Row.messageId messageId
        (Row.setBody (placeholder messageId row.body.utf8ByteSize)))).Intact ↔
      ∀ t', ∀ other ∈ state.rows t', other.Away → ∀ id ∈ other.messageId,
        filePath platform id = filePath platform messageId →
          some row.body = some other.latest := by
  refine forall_congr' fun t' => ?_
  have hrows (t' : Thread) : stored.rows t' = state.rows t' :=
    congrArg (fun threads => (threads t').getD []) hthreads
  have hkeeps (other : Row) (hother : other ∈ state.rows t') :
      (stored.mapThread t (modifyFirst Row.messageId messageId
          (Row.setBody (placeholder messageId row.body.utf8ByteSize)))).KeepsBody other ↔
        (other.Away → ∀ id ∈ other.messageId,
          filePath platform id = filePath platform messageId →
            some row.body = some other.latest) :=
    keepsBody_changed_iff hopens (h t' other hother)
  rw [rows_mapThread t t' rfl, hrows, hrows]
  by_cases heq : t' = t
  · subst heq
    rw [if_pos rfl, forall_mem_modifyFirst, forall_mem_iff messageId (state.rows t'), hrow]
    refine and_congr (iff_of_true ?_ ?_) ?_
    · rintro row' ⟨⟩ -
      refine ⟨messageId, (key_of_first hrow).1, ?_, ?_⟩
      · change placeholder messageId row.body.utf8ByteSize =
          placeholder messageId row.latest.utf8ByteSize
        rw [hshown]
      · exact ((hopens _).trans (if_pos rfl)).trans (congrArg some hshown)
    · rintro row' ⟨⟩ haway
      exact absurd hshown haway
    · exact forall₂_congr fun other hother => hkeeps other (others_subset _ _ hother)
  · rw [if_neg heq]
    exact forall₂_congr hkeeps

theorem transparent_offload_iff (h : state.Intact)
    (rng : Option (Vector platform.Byte nonceLen)) (outcome : WriteOutcome) :
    state.Transparent (.offload messageId scope scopeId rng outcome) ↔
      state.KeepsTransparent (.offload messageId scope scopeId rng outcome) := by
  have hsplit : state.Transparent (.offload messageId scope scopeId rng outcome) ↔
      (state.offloadMessage messageId scope scopeId rng outcome).1.Intact ∧
        state.Answers (.offload messageId scope scopeId rng outcome) :=
    ⟨fun ht => ⟨ht.intact, ht.answers⟩, fun ⟨hintact, hanswers⟩ => ⟨hintact, hanswers⟩⟩
  unfold Answers at hsplit
  unfold KeepsTransparent
  dsimp only at hsplit ⊢
  obtain ⟨e, heq, hunstored⟩ | ⟨t, row, ht, hrow, hcases⟩ :=
    offloadMessage_cases state messageId scope scopeId rng outcome
  · rw [heq] at hsplit
    refine iff_of_true (hsplit.mpr ⟨h, rfl⟩) fun t ht row hrow => ?_
    obtain ⟨hplaceholder, hnone⟩ := hunstored t ht row hrow
    rw [hplaceholder, hnone]
    exact nofun
  · have honly (P : Row → Prop) : (∀ t', findThread scope scopeId = .ok t' →
        ∀ row' ∈ first Row.messageId messageId (state.rows t'), P row') ↔ P row := by
      refine ⟨fun hall => hall t ht row hrow, fun hP t' ht' row' hrow' => ?_⟩
      cases ht.symm.trans ht'
      cases hrow.symm.trans hrow'
      exact hP
    rw [honly]
    obtain ⟨hplaceholder, heq⟩ | ⟨hplaceholder, hsome, stored, hthreads, hopens, hresult⟩ := hcases
    · rw [heq] at hsplit
      dsimp only at hsplit
      rw [honly] at hsplit
      rw [hsplit, hplaceholder]
      exact and_iff_right h
    · have hshown := h.shown_of_not_placeholder (key_of_first hrow).2 hplaceholder
      rw [hplaceholder, hsome]
      obtain ⟨e, heq⟩ | ⟨hwritten, heq⟩ := hresult
      · rw [heq] at hsplit
        rw [hsplit]
        refine (and_iff_left hthreads).trans ((intact_written_iff h hthreads hopens).trans ?_)
        exact (imp_iff_right rfl).symm
      · rw [heq] at hsplit
        dsimp only at hsplit
        rw [honly] at hsplit
        rw [hwritten] at hopens ⊢
        have hopened : stored.opens (filePath platform messageId) = some row.latest := by
          rw [← hshown]
          exact (hopens _).trans (if_pos rfl)
        rw [hsplit]
        refine (and_iff_left hopened).trans ?_
        refine (intact_placeholder_iff h stored hrow hshown hthreads hopens).trans ?_
        simp

/-! ### Loading -/

theorem opens_of_mem_found {io : Io} {messageIds : List String} {entry : String × String}
    (h : entry ∈ state.found io messageIds) :
    state.opens (filePath platform entry.1) = some entry.2 := by
  obtain ⟨id, -, hentry⟩ := List.mem_filterMap.mp h
  obtain ⟨body, hbody, rfl⟩ := Option.map_eq_some_iff.mp hentry
  unfold readable at hbody
  split at hbody
  next => cases hbody
  next => exact hbody

theorem nodup_found (io : Io) (messageIds : List String) :
    ((state.found io messageIds).map Prod.fst).Nodup := by
  have hsublist (ids : List String) :
      ((ids.filterMap fun id => (state.readable io id).map fun body => (id, body)).map
        Prod.fst).Sublist ids := by
    induction ids with
    | nil => exact List.Sublist.slnil
    | cons id rest ih =>
        rw [List.filterMap_cons]
        cases state.readable io id with
        | none => exact ih.cons id
        | some body => exact ih.cons_cons id
  exact (List.nodup_dedup messageIds).sublist (hsublist _)

theorem eq_latest_iff {row : Row} (h : state.KeepsBody row) (hid : row.messageId = some messageId)
    {body : String} (hopens : state.opens (filePath platform messageId) = some body) :
    body = row.latest ↔ row.Away ∨ body = row.body := by
  by_cases haway : row.Away
  · obtain ⟨id, hid', -, hopens'⟩ := h haway
    cases hid.symm.trans hid'
    exact iff_of_true (Option.some.inj (hopens.symm.trans hopens')) (.inl haway)
  · rw [or_iff_right haway, not_not.mp haway]

/-- Bodies are given back to the first rows with their ids, and their files are removed. -/
structure Restores (state : SharedState platform) (io : Io) (messageIds : List String)
    (target : Option Thread) (state' : SharedState platform) : Prop where
  opens : ∀ path, state'.opens path =
    if ∃ entry ∈ state.found io messageIds, path = filePath platform entry.1 ∧
      io.removeFails (filePath platform entry.1) = false then none else state.opens path
  rows : ∀ t, state'.rows t =
    if target = some t then
      modifyAll Row.messageId Row.setBody (state.found io messageIds) (state.rows t)
    else state.rows t

theorem Restores.intact_iff {io : Io} {messageIds : List String} {target : Option Thread}
    (hrestores : state.Restores io messageIds target state') (h : state.Intact) :
    state'.Intact ↔ state.KeepsRestored io messageIds target := by
  have hkeeps (t : Thread) (row : Row) (hrow : row ∈ state.rows t) :
      state'.KeepsBody row ↔
        (row.Away → ∀ id ∈ row.messageId, ∀ entry ∈ state.found io messageIds,
          filePath platform id = filePath platform entry.1 →
            io.removeFails (filePath platform entry.1)) := by
    rw [keepsBody_changed_iff hrestores.opens (h t row hrow)]
    refine forall₃_congr fun _ id _ => ?_
    constructor
    · intro hnone entry hentry hpath
      by_contra hremoved
      exact nomatch hnone ⟨entry, hentry, hpath, Bool.not_eq_true _ ▸ hremoved⟩
    · rintro hfails ⟨entry, hentry, hpath, hremoved⟩
      exact nomatch hremoved.symm.trans (hfails entry hentry hpath)
  have hback (t : Thread) (entry : String × String) (hentry : entry ∈ state.found io messageIds)
      (row : Row) (hrow : row ∈ first Row.messageId entry.1 (state.rows t)) :
      state'.KeepsBody (row.setBody entry.2) ↔ row.Away ∨ entry.2 = row.body := by
    have hopened := opens_of_mem_found hentry
    obtain ⟨hid, hmem⟩ := key_of_first hrow
    rw [← eq_latest_iff (h t row hmem) hid hopened]
    refine ⟨fun hkept => ?_, fun hlatest haway => absurd hlatest haway⟩
    by_contra haway
    obtain ⟨id, hid', -, hopens'⟩ := hkept haway
    cases hid.symm.trans hid'
    rw [hrestores.opens] at hopens'
    split at hopens'
    next => cases hopens'
    next => exact haway (Option.some.inj (hopened.symm.trans hopens'))
  have hthread (t : Thread) : (∀ row ∈ state'.rows t, state'.KeepsBody row) ↔
      (t ∈ target → ∀ entry ∈ state.found io messageIds,
        ∀ row ∈ first Row.messageId entry.1 (state.rows t), row.Away ∨ entry.2 = row.body) ∧
      ∀ row ∈ state.unrestored ((state.found io messageIds).map Prod.fst) target t,
        row.Away → ∀ id ∈ row.messageId, ∀ entry ∈ state.found io messageIds,
          filePath platform id = filePath platform entry.1 →
            io.removeFails (filePath platform entry.1) := by
    unfold unrestored
    rw [hrestores.rows]
    by_cases htarget : target = some t
    · rw [if_pos htarget, if_pos htarget]
      refine (forall_mem_modifyAll Row.messageId_setBody (nodup_found _ _) _).trans
        (and_congr ?_ ?_)
      · exact (forall₂_congr fun entry hentry => forall₂_congr (hback t entry hentry)).trans
          ⟨fun hall _ => hall, fun hall => hall htarget⟩
      · exact forall₂_congr fun row hrow => hkeeps t row (othersAll_subset _ _ hrow)
    · rw [if_neg htarget, if_neg htarget]
      refine (forall₂_congr (hkeeps t)).trans (and_iff_right ?_).symm
      exact fun hmem => absurd hmem htarget
  calc
    state'.Intact ↔ _ := forall_congr' hthread
    _ ↔ _ := forall_and
    _ ↔ state.KeepsRestored io messageIds target := by
      constructor
      · rintro ⟨hcurrent, hothers⟩
        exact ⟨fun entry hentry t ht => hcurrent t ht entry hentry, hothers⟩
      · rintro ⟨hcurrent, hothers⟩
        exact ⟨fun t ht entry hentry => hcurrent entry hentry t ht, hothers⟩

theorem toOption_load {store : EncryptedFileProvider platform}
    (hstore : state.offloadStore = some store) (io : Io) (key : String) :
    (store.load io key).toOption = state.readable io key := by
  rw [store.toOption_load]
  unfold readable opens
  rw [hstore]
  rfl

theorem opens_removeAll (store : EncryptedFileProvider platform) (io : Io)
    (restored : List (String × String)) (path : String) :
    (restored.foldl (fun store entry => store.remove io entry.1) store).opens path =
      if ∃ entry ∈ restored, path = filePath platform entry.1 ∧
        io.removeFails (filePath platform entry.1) = false then none else store.opens path := by
  induction restored generalizing store with
  | nil => simp
  | cons entry rest ih =>
      rw [List.foldl_cons, ih, store.opens_remove]
      simp only [List.exists_mem_cons_iff]
      split
      next hrest => exact (if_pos (.inr hrest)).symm
      next hrest =>
        split
        next hentry => exact (if_pos (.inl hentry)).symm
        next hentry => exact (if_neg (not_or.mpr ⟨hentry, hrest⟩)).symm

theorem rows_setMessageBody (body : String) (t : Thread) :
    (state.setMessageBody scope scopeId messageId body).rows t =
      if setThread scope scopeId = some t then
        modifyFirst Row.messageId messageId (Row.setBody body) (state.rows t)
      else state.rows t := by
  unfold setMessageBody
  cases setThread scope scopeId with
  | none => rfl
  | some target =>
      refine (rows_mapThread target t rfl).trans ?_
      by_cases heq : t = target
      · subst heq
        rw [if_pos rfl, if_pos rfl]
      · rw [if_neg heq, if_neg (fun h => heq (Option.some.inj h).symm)]

theorem opens_setMessageBody (body path : String) :
    (state.setMessageBody scope scopeId messageId body).opens path = state.opens path := by
  unfold setMessageBody
  split <;> rfl

variable (scope scopeId) in
theorem setMessageBodies (state : SharedState platform) (restored : List (String × String)) :
    (∀ t, (restored.foldl
      (fun state entry => state.setMessageBody scope scopeId entry.1 entry.2) state).rows t =
        if setThread scope scopeId = some t then
          modifyAll Row.messageId Row.setBody restored (state.rows t)
        else state.rows t) ∧
      ∀ path, (restored.foldl
        (fun state entry => state.setMessageBody scope scopeId entry.1 entry.2) state).opens path =
          state.opens path := by
  induction restored generalizing state with
  | nil => exact ⟨fun t => (ite_self _).symm, fun _ => rfl⟩
  | cons entry rest ih =>
      obtain ⟨hrows, hopens⟩ := ih (state.setMessageBody scope scopeId entry.1 entry.2)
      refine ⟨fun t => (hrows t).trans ?_, fun path => (hopens path).trans ?_⟩
      · rw [rows_setMessageBody]
        split <;> rfl
      · exact opens_setMessageBody _ _

theorem KeepsRestored.latest {io : Io} {messageIds : List String} {target : Option Thread}
    (h : state.Intact) (hkeeps : state.KeepsRestored io messageIds target) :
    ∀ entry ∈ state.found io messageIds, ∀ t ∈ target,
      ∀ row ∈ first Row.messageId entry.1 (state.rows t), entry.2 = row.latest := by
  intro entry hentry t ht row hrow
  obtain ⟨hid, hmem⟩ := key_of_first hrow
  refine (eq_latest_iff (h t row hmem) hid (opens_of_mem_found hentry)).mpr ?_
  exact hkeeps.current entry hentry t ht row hrow

theorem found_of_none (hstore : state.offloadStore = none) (io : Io) (messageIds : List String) :
    state.found io messageIds = [] := by
  refine List.filterMap_eq_nil_iff.mpr fun id _ => ?_
  unfold readable opens
  rw [hstore]
  split <;> rfl

theorem keepsRestored_of_found_nil {io : Io} {messageIds : List String} {target : Option Thread}
    (h : state.found io messageIds = []) : state.KeepsRestored io messageIds target where
  current _ hentry := absurd (h ▸ hentry) List.not_mem_nil
  others _ _ _ _ _ _ _ hentry := absurd (h ▸ hentry) List.not_mem_nil

theorem Restores.transparent_iff {io : Io} {messageIds : List String} {target : Option Thread}
    (hrestores : state.Restores io messageIds target state') (h : state.Intact) :
    (state'.Intact ∧ ∀ entry ∈ state.found io messageIds, ∀ t ∈ target,
      ∀ row ∈ first Row.messageId entry.1 (state.rows t), entry.2 = row.latest) ↔
        state.KeepsRestored io messageIds target := by
  rw [hrestores.intact_iff h]
  exact and_iff_left_of_imp (KeepsRestored.latest h)

theorem found_singleton (io : Io) (messageId : String) :
    state.found io [messageId] =
      ((state.readable io messageId).map fun body => (messageId, body)).toList := by
  unfold found
  rw [List.dedup_eq_self.mpr (List.nodup_singleton messageId), List.filterMap_cons]
  cases state.readable io messageId <;> rfl

variable (state messageId scope scopeId) in
/-- `load_offloaded_message` gives the body back, or fails and changes nothing. -/
theorem loadOffloadedMessage_cases (io : Io) :
    (∃ e, state.loadOffloadedMessage messageId scope scopeId io = (state, .error e) ∧
      state.found io [messageId] = []) ∨
    ∃ state' body, state.loadOffloadedMessage messageId scope scopeId io = (state', .ok body) ∧
      state.found io [messageId] = [(messageId, body)] ∧
      state.Restores io [messageId] (setThread scope scopeId) state' := by
  unfold loadOffloadedMessage
  cases hstore : state.offloadStore with
  | none => exact .inl ⟨_, rfl, found_of_none hstore io [messageId]⟩
  | some store =>
      have hreadable := toOption_load hstore io messageId
      dsimp only
      cases hload : store.load io messageId with
      | error e =>
          rw [hload] at hreadable
          refine .inl ⟨e, rfl, ?_⟩
          rw [found_singleton, ← hreadable]
          rfl
      | ok body =>
          rw [hload] at hreadable
          have hfound : state.found io [messageId] = [(messageId, body)] := by
            rw [found_singleton, ← hreadable]
            rfl
          refine .inr ⟨_, body, rfl, hfound, ?_, ?_⟩
          · intro path
            have hold : state.opens path = store.opens path := by
              unfold opens
              rw [hstore]
              rfl
            rw [hold, hfound]
            exact (opens_setMessageBody body path).trans
              (opens_removeAll store io [(messageId, body)] path)
          · intro t
            rw [hfound]
            exact rows_setMessageBody body t

variable (state scope scopeId) in
theorem loadOffloadedMessagesBatch_cases (messageIds : List String) (io : Io) :
    (∃ e, state.loadOffloadedMessagesBatch messageIds scope scopeId io = (state, .error e) ∧
      state.found io messageIds = []) ∨
    ∃ state', state.loadOffloadedMessagesBatch messageIds scope scopeId io =
        (state', .ok (state.found io messageIds)) ∧
      state.Restores io messageIds (setThread scope scopeId) state' := by
  unfold loadOffloadedMessagesBatch
  cases hstore : state.offloadStore with
  | none => exact .inl ⟨_, rfl, found_of_none hstore io messageIds⟩
  | some store =>
      have hrestored : ((store.loadMany io messageIds).filterMap fun result =>
          result.2.toOption.map fun body => (result.1, body)) = state.found io messageIds := by
        unfold EncryptedFileProvider.loadMany found
        rw [List.filterMap_map]
        simp only [Function.comp_def, toOption_load hstore]
      dsimp only
      rw [hrestored]
      obtain ⟨hrows, hopens⟩ := setMessageBodies scope scopeId
        { state with
          offloadStore := some ((state.found io messageIds).foldl
            (fun store entry => store.remove io entry.1) store) } (state.found io messageIds)
      refine .inr ⟨_, rfl, fun path => ?_, hrows⟩
      have hold : state.opens path = store.opens path := by
        unfold opens
        rw [hstore]
        rfl
      rw [hold]
      exact (hopens path).trans (opens_removeAll store io _ path)

theorem transparent_load_iff (h : state.Intact) (io : Io) :
    state.Transparent (.load messageId scope scopeId io) ↔
      state.KeepsTransparent (.load messageId scope scopeId io) := by
  have hsplit : state.Transparent (.load messageId scope scopeId io) ↔
      (state.loadOffloadedMessage messageId scope scopeId io).1.Intact ∧
        state.Answers (.load messageId scope scopeId io) :=
    ⟨fun ht => ⟨ht.intact, ht.answers⟩, fun ⟨hintact, hanswers⟩ => ⟨hintact, hanswers⟩⟩
  unfold Answers at hsplit
  dsimp only at hsplit
  change _ ↔ state.KeepsRestored io [messageId] (setThread scope scopeId)
  obtain ⟨e, heq, hfound⟩ | ⟨state', body, heq, hfound, hrestores⟩ :=
    loadOffloadedMessage_cases state messageId scope scopeId io
  · rw [heq] at hsplit
    exact iff_of_true (hsplit.mpr ⟨h, rfl⟩) (keepsRestored_of_found_nil hfound)
  · rw [heq] at hsplit
    rw [hsplit, ← hrestores.transparent_iff h, hfound]
    refine and_congr_right fun _ => ?_
    simp

theorem transparent_loadBatch_iff (h : state.Intact) (messageIds : List String) (io : Io) :
    state.Transparent (.loadBatch messageIds scope scopeId io) ↔
      state.KeepsTransparent (.loadBatch messageIds scope scopeId io) := by
  have hsplit : state.Transparent (.loadBatch messageIds scope scopeId io) ↔
      (state.loadOffloadedMessagesBatch messageIds scope scopeId io).1.Intact ∧
        state.Answers (.loadBatch messageIds scope scopeId io) :=
    ⟨fun ht => ⟨ht.intact, ht.answers⟩, fun ⟨hintact, hanswers⟩ => ⟨hintact, hanswers⟩⟩
  unfold Answers at hsplit
  dsimp only at hsplit
  change _ ↔ state.KeepsRestored io messageIds (setThread scope scopeId)
  obtain ⟨e, heq, hfound⟩ | ⟨state', heq, hrestores⟩ :=
    loadOffloadedMessagesBatch_cases state scope scopeId messageIds io
  · rw [heq] at hsplit
    exact iff_of_true (hsplit.mpr ⟨h, rfl⟩) (keepsRestored_of_found_nil hfound)
  · rw [heq] at hsplit
    rw [hsplit, ← hrestores.transparent_iff h]

/-! ### Clearing -/

theorem intact_clearOffloaded_iff (h : state.Intact) (io : Io) :
    (state.clearOffloaded io).Intact ↔
      ∀ t, ∀ row ∈ state.rows t, row.Away → ∀ id ∈ row.messageId,
        io.removeFails (filePath platform id) := by
  have hopens (path : String) : (state.clearOffloaded io).opens path =
      if io.removeFails path = false then none else state.opens path := by
    unfold clearOffloaded opens
    cases state.offloadStore with
    | none => exact (ite_self _).symm
    | some store =>
        refine (store.opens_clear io path).trans ?_
        cases io.removeFails path <;> rfl
  refine forall_congr' fun t => forall₂_congr fun row hrow => ?_
  refine (keepsBody_changed_iff hopens (h t row hrow)).trans ?_
  simp

theorem transparent_iff (h : state.Intact) (event : Event platform) :
    state.Transparent event ↔ state.KeepsTransparent event := by
  have hlisted (hlist : ¬event.MovesBodies) (hanswers : state.Answers event) :
      state.Transparent event :=
    ⟨h.step hlist, hanswers⟩
  cases event with
  | offload => exact transparent_offload_iff h _ _
  | load => exact transparent_load_iff h _
  | loadBatch => exact transparent_loadBatch_iff h _ _
  | clear io =>
      exact ⟨fun ht => (intact_clearOffloaded_iff h io).mp ht.intact,
        fun hkeeps => ⟨(intact_clearOffloaded_iff h io).mpr hkeeps, trivial⟩⟩
  | pushed | inserted | replaced | edited | retained | removed =>
      exact iff_of_true (hlisted id trivial) trivial

/-- In a session, bodies are away unnoticed exactly as long as none is given back that was edited
or arrived again meanwhile, none that starts like a placeholder is offloaded, and no file that is
still needed is overwritten or removed. -/
theorem transparent_run_iff (offloadStore : Option (EncryptedFileProvider platform))
    (events : List (Event platform)) :
    Along step Transparent { offloadStore } events ↔
      Along step KeepsTransparent { offloadStore } events :=
  along_iff_of_invariant
    (fun (state : SharedState platform) event (h : state.Intact) => transparent_iff h event)
    (fun _ event h hkeeps => ((transparent_iff h event).mpr hkeeps).intact)
    (fun _ _ hrow => absurd hrow List.not_mem_nil)

/-- A message is offloaded and edited, and its old body is given back. -/
theorem edit_undone :
    ¬∀ (platform : Platform) (offloadStore : Option (EncryptedFileProvider platform))
      (events : List (Event platform)), Along step Transparent { offloadStore } events := by
  intro h
  have hruns := h sealingPlatform (some {})
    [.inserted (.channel 0) 0 (some "id") "old",
      .offload "id" "channel" "0" (some (.replicate nonceLen (.text ""))) .complete,
      .edited (.channel 0) "id" "new", .load "id" "channel" "0" {}]
  have hlatest : "old" = "new" :=
    hruns.2.2.2.1.answers (.channel 0) rfl ⟨some "id", "new", "new"⟩ rfl
  exact absurd hlatest (by decide)

end SharedState

end FancyMumble.Messages.Offloading
