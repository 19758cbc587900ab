import FancyMumble.Lib.Runs
import FancyMumble.Message
import Mathlib.Algebra.Order.Ring.Rat

/-!
# Plugin data of the server

The server advertises its file server and its custom emotes to a client in plugin data. The
same message carries what users send each other; it names its sender then.
-/

namespace FancyMumble.Interface

open Lib.Runs

/-! ## Values -/

inductive JsNumber where
  | finite (value : ℚ)
  | negativeZero
  | infinite (negative : Bool)

inductive Json where
  | null
  | bool (value : Bool)
  | number (value : JsNumber)
  | string (value : String)
  | array (elements : List Json)
  | object (fields : List (String × Json))

abbrev JsValue := Option Json

/-- `raw.key`, for keys that values other than objects lack; `null` has no fields to read. -/
def Json.field (raw : Json) (key : String) : Option JsValue :=
  match raw with
  | .null => none
  | .object fields => some ((fields.reverse.find? fun field => field.1 = key).map Prod.snd)
  | _ => some none

def JsValue.truthy : JsValue → Bool
  | none | some .null => false
  | some (.bool value) => value
  | some (.number (.finite value)) => value ≠ 0
  | some (.number .negativeZero) => false
  | some (.number (.infinite _)) => true
  | some (.string value) => value ≠ ""
  | some (.array _) | some (.object _) => true

def JsValue.notFalse : JsValue → Bool
  | some (.bool false) => false
  | _ => true

def JsValue.orElse : JsValue → JsValue → JsValue
  | none, default | some .null, default => default
  | value, _ => value

/-- What the script engine provides: `JSON.parse` of decoded bytes, and the text of a value in
a template. Both can throw. -/
structure Script where
  parse : List UInt8 → Option Json
  text : JsValue → Option String

/-! ## Configuration and emotes -/

structure FileServerConfig where
  baseUrl : JsValue
  sessionId : JsValue
  uploadToken : JsValue
  sessionJwt : JsValue
  maxFileSizeBytes : JsValue
  deleteOnTtl : Bool
  ttlSeconds : JsValue
  deleteOnDownload : Bool
  deleteOnDisconnect : Bool
  canManageEmotes : Bool
  canShareFiles : Bool
  canShareFilesPublic : Bool

/-- The base URL of a configuration; a non-empty override has precedence over the message. -/
def FileServerConfig.readBaseUrl (override : Option String) (raw : Json) : Option JsValue :=
  match override.filter (· ≠ "") with
  | some url => some (some (.string url))
  | none => raw.field "base_url"

def FileServerConfig.read (override : Option String) (raw : Json) :
    Option FileServerConfig := do
  let baseUrl ← readBaseUrl override raw
  let sessionId ← raw.field "session_id"
  let uploadToken ← raw.field "upload_token"
  let sessionJwt ← raw.field "session_jwt"
  let maxFileSizeBytes ← raw.field "max_file_size_bytes"
  let deleteOnTtl ← raw.field "delete_on_ttl"
  let ttlSeconds ← raw.field "ttl_seconds"
  let deleteOnDownload ← raw.field "delete_on_download"
  let deleteOnDisconnect ← raw.field "delete_on_disconnect"
  let canManageEmotes ← raw.field "can_manage_emotes"
  let canShareFiles ← raw.field "can_share_files"
  let canShareFilesPublic ← raw.field "can_share_files_public"
  some
    { baseUrl
      sessionId
      uploadToken
      sessionJwt
      maxFileSizeBytes
      deleteOnTtl := deleteOnTtl.truthy
      ttlSeconds := ttlSeconds.orElse (some (.number (.finite 0)))
      deleteOnDownload := deleteOnDownload.truthy
      deleteOnDisconnect := deleteOnDisconnect.truthy
      canManageEmotes := canManageEmotes.truthy
      canShareFiles := canShareFiles.notFalse
      canShareFilesPublic := canShareFilesPublic.notFalse }

theorem FileServerConfig.readBaseUrl_of_read {override : Option String} {raw : Json}
    {cfg : FileServerConfig} (h : read override raw = some cfg) :
    readBaseUrl override raw = some cfg.baseUrl := by
  unfold read at h
  obtain ⟨baseUrl, hbaseUrl, h⟩ := Option.bind_eq_some_iff.mp h
  -- the other fields are only read
  iterate 11 obtain ⟨_, -, h⟩ := Option.bind_eq_some_iff.mp h
  rw [← Option.some.inj h]
  exact hbaseUrl

structure CustomServerEmote where
  shortcode : JsValue
  aliasEmoji : JsValue
  description : JsValue
  imageDataUrl : JsValue

def CustomServerEmote.read (raw : Json) : Option CustomServerEmote := do
  let shortcode ← raw.field "shortcode"
  let aliasEmoji ← raw.field "alias_emoji"
  let description ← raw.field "description"
  let imageDataUrl ← raw.field "image_data_url"
  some { shortcode, aliasEmoji, description, imageDataUrl }

def readEmotes (raw : Json) : Option (List CustomServerEmote) := do
  match (← raw.field "emotes").orElse (some (.array [])) with
  | some (.array elements) => elements.mapM CustomServerEmote.read
  | _ => none

structure ServerCustomReaction where
  shortcode : String
  display : JsValue
  label : JsValue

def CustomServerEmote.reaction (script : Script) (emote : CustomServerEmote) :
    Option ServerCustomReaction := do
  let shortcode ← script.text emote.shortcode
  some
    { shortcode := ":" ++ shortcode ++ ":"
      display := emote.imageDataUrl
      label := emote.description.orElse emote.aliasEmoji }

/-! ## Delivery -/

structure PluginDataPayload where
  senderSession : Option UInt32
  data : List UInt8
  dataId : String

def handlePluginData (msg : PluginDataTransmission) : PluginDataPayload :=
  { senderSession := msg.senderSession
    data := msg.data.getD []
    dataId := msg.dataId.getD "" }

theorem handlePluginData_dataId (msg : PluginDataTransmission) {key : String} (hkey : key ≠ "") :
    (handlePluginData msg).dataId = key ↔ msg.dataId = some key := by
  show msg.dataId.getD "" = key ↔ _
  cases msg.dataId with
  | none => simp [hkey.symm]
  | some dataId => simp

/-- What servers have told the interface about their file server and their emotes; `override`
is the `fancy_rest_api_url` of the server configuration. -/
structure ServerData where
  override : Option String := none
  fileServerConfig : Option FileServerConfig := none
  customServerEmotes : List CustomServerEmote := []
  serverCustomReactions : List ServerCustomReaction := []

namespace ServerData

variable (script : Script) (s : ServerData)

def onPluginData (event : PluginDataPayload) : ServerData :=
  if event.dataId = "fancy-file-server-config" then
    match (script.parse event.data).bind (FileServerConfig.read s.override) with
    | some cfg => { s with fileServerConfig := some cfg }
    | none => s
  else if event.dataId = "fancy-server-emotes" then
    match (script.parse event.data).bind readEmotes with
    | some emotes =>
        -- the emotes stay when a shortcode cannot be turned into a text
        match emotes.mapM (CustomServerEmote.reaction script) with
        | some reactions =>
            { s with customServerEmotes := emotes, serverCustomReactions := reactions }
        | none => { s with customServerEmotes := emotes }
    | none => s
  else s

def receive (msg : PluginDataTransmission) : ServerData :=
  s.onPluginData script (handlePluginData msg)

/-! ## Announcements -/

variable (msg : PluginDataTransmission)

def announcedConfig : Option FileServerConfig :=
  if msg.dataId = some "fancy-file-server-config" then
    (script.parse (msg.data.getD [])).bind (FileServerConfig.read s.override)
  else none

def announcedEmotes : Option (List CustomServerEmote) :=
  if msg.dataId = some "fancy-server-emotes" then
    (script.parse (msg.data.getD [])).bind readEmotes
  else none

def announcedReactions : Option (List ServerCustomReaction) :=
  (announcedEmotes script msg).bind fun emotes => emotes.mapM (CustomServerEmote.reaction script)

theorem receive_eq : s.receive script msg =
    { s with
      fileServerConfig := (s.announcedConfig script msg).or s.fileServerConfig
      customServerEmotes := (announcedEmotes script msg).getD s.customServerEmotes
      serverCustomReactions :=
        (announcedReactions script msg).getD s.serverCustomReactions } := by
  have hdata : (handlePluginData msg).data = msg.data.getD [] := rfl
  have hconfig : (handlePluginData msg).dataId = "fancy-file-server-config" ↔ _ :=
    handlePluginData_dataId msg (by decide)
  have hemotes : (handlePluginData msg).dataId = "fancy-server-emotes" ↔ _ :=
    handlePluginData_dataId msg (by decide)
  unfold receive onPluginData announcedReactions announcedConfig announcedEmotes
  rw [hdata]
  by_cases h : msg.dataId = some "fancy-file-server-config"
  · have hother : msg.dataId ≠ some "fancy-server-emotes" := by simp [h]
    rw [if_pos (hconfig.mpr h), if_pos h, if_neg hother]
    cases (script.parse (msg.data.getD [])).bind (FileServerConfig.read s.override) <;> rfl
  · rw [if_neg (mt hconfig.mp h), if_neg h]
    by_cases h' : msg.dataId = some "fancy-server-emotes"
    · rw [if_pos (hemotes.mpr h'), if_pos h']
      cases (script.parse (msg.data.getD [])).bind readEmotes with
      | none => rfl
      | some emotes =>
          dsimp only [Option.bind_some]
          cases emotes.mapM (CustomServerEmote.reaction script) <;> rfl
    · rw [if_neg (mt hemotes.mp h'), if_neg h']
      rfl

/-! ## Senders -/

structure SameData (s' : ServerData) : Prop where
  fileServerConfig : s'.fileServerConfig = s.fileServerConfig
  customServerEmotes : s'.customServerEmotes = s.customServerEmotes
  serverCustomReactions : s'.serverCustomReactions = s.serverCustomReactions

/-- A message that a user has sent changes nothing of what servers have told. -/
def Unspoofed : Prop :=
  msg.senderSession ≠ none → s.SameData (s.receive script msg)

/-- What the message announces is what the interface has already. -/
structure NothingNew : Prop where
  config : ∀ cfg, s.announcedConfig script msg = some cfg → s.fileServerConfig = some cfg
  emotes : ∀ emotes, announcedEmotes script msg = some emotes → s.customServerEmotes = emotes
  reactions : ∀ reactions, announcedReactions script msg = some reactions →
    s.serverCustomReactions = reactions

theorem sameData_receive_iff :
    s.SameData (s.receive script msg) ↔ s.NothingNew script msg := by
  have hgetD : ∀ {α : Type} (announced : Option α) (old : α),
      announced.getD old = old ↔ ∀ new, announced = some new → old = new := by
    intro α announced old
    cases announced with
    | none => simp
    | some new => simp [eq_comm]
  have hor : ∀ announced : Option FileServerConfig,
      announced.or s.fileServerConfig = s.fileServerConfig ↔
        ∀ cfg, announced = some cfg → s.fileServerConfig = some cfg := by
    intro announced
    cases announced with
    | none => simp
    | some cfg => simp [eq_comm]
  rw [receive_eq]
  constructor
  · intro h
    exact
      { config := (hor _).mp h.fileServerConfig
        emotes := (hgetD _ _).mp h.customServerEmotes
        reactions := (hgetD _ _).mp h.serverCustomReactions }
  · intro h
    exact
      { fileServerConfig := (hor _).mpr h.config
        customServerEmotes := (hgetD _ _).mpr h.emotes
        serverCustomReactions := (hgetD _ _).mpr h.reactions }

/-- A message is no spoof exactly if it has no sender or announces nothing new. -/
theorem unspoofed_iff :
    s.Unspoofed script msg ↔ (msg.senderSession ≠ none → s.NothingNew script msg) :=
  imp_congr_right fun _ => s.sameData_receive_iff script msg

/-- The server data of a user: the listener does not look at the sender. -/
theorem config_of_user :
    ¬ ({} : ServerData).Unspoofed
      { parse := fun data => if data = [123, 125] then some (.object []) else none
        text := fun _ => none }
      { senderSession := some 7
        data := some [123, 125]
        dataId := some "fancy-file-server-config" } := by
  intro h
  exact Option.some_ne_none _ (h nofun).fileServerConfig

/-- Where no message is a spoof, the messages of users make no difference. -/
theorem run_of_unspoofed {messages : List PluginDataTransmission}
    (h : Along (receive script) (Unspoofed script) s messages) :
    run (receive script) s messages =
      run (receive script) s (messages.filter fun msg => msg.senderSession = none) := by
  refine unwinding (R := Eq) (fun s s' msg hs hkeep hmsg => ?_) (fun s s' msg hs _ _ => ?_) rfl h
  · rw [← hs]
    have hsame := hmsg (of_decide_eq_false hkeep)
    rw [receive_eq] at hsame ⊢
    obtain ⟨hconfig, hemotes, hreactions⟩ := hsame
    simp only at hconfig hemotes hreactions
    rw [hconfig, hemotes, hreactions]
  · rw [hs]

end ServerData

end FancyMumble.Interface
