import FancyMumble.Interface.PluginData

/-!
# Preferences

The preferences are kept in a store behind an asynchronous interface, one document under each
key. Every operation reads a document, computes the new one and stores it, with a wait before
each of these steps; `updatePreferences` reads a cached copy instead of the store.
-/

namespace FancyMumble.Interface.Preferences

/-! ## Documents -/

inductive Key where
  | preferences
  | dismissedPersistenceBanners
  | silencedChannels
  | userVolumes
  | mutedPushChannels
deriving DecidableEq

abbrev UserPreferences := String → Option Json

abbrev ChannelMap := String → Option (List UInt32)

abbrev VolumeMap := String → Option ℚ

abbrev Doc : Key → Type
  | .preferences => UserPreferences
  | .dismissedPersistenceBanners => List UInt32
  | .silencedChannels => ChannelMap
  | .userVolumes => VolumeMap
  | .mutedPushChannels => ChannelMap

abbrev Store := (key : Key) → Option (Doc key)

def Store.set (store : Store) (key : Key) (document : Doc key) : Store :=
  Function.update store key (some document)

@[simp] theorem Store.set_self (store : Store) (key : Key) (document : Doc key) :
    store.set key document key = some document := Function.update_self ..

theorem Store.set_of_ne (store : Store) {key other : Key} (document : Doc key)
    (h : other ≠ key) : store.set key document other = store other := Function.update_of_ne h ..

def DEFAULTS : UserPreferences := fun field => List.lookup field [
  ("userMode", .string "normal"),
  ("hasCompletedSetup", .bool false),
  ("defaultUsername", .string ""),
  ("klipyApiKey", .string ""),
  ("timeFormat", .string "auto"),
  ("convertToLocalTime", .bool true),
  ("enableNotifications", .bool true),
  ("enableDualPath", .bool false),
  ("debugLogging", .bool false),
  ("logLevel", .string "info"),
  ("disableTypingIndicators", .bool false),
  ("disableOsmMaps", .bool false),
  ("disableLinkPreviews", .bool false),
  ("enableExternalEmbeds", .bool false),
  ("streamerMode", .bool false),
  ("autoReconnect", .bool false),
  ("autoUpdateOnStartup", .bool false),
  ("skippedUpdateVersion", .null)]

def spread (base patch : UserPreferences) : UserPreferences :=
  fun field => (patch field).or (base field)

def loaded (stored : Option UserPreferences) : UserPreferences :=
  match stored with
  | some prefs => spread DEFAULTS prefs
  | none => DEFAULTS

def fallback : (key : Key) → Doc key
  | .preferences => DEFAULTS
  | .dismissedPersistenceBanners => []
  | .silencedChannels => fun _ => none
  | .userVolumes => fun _ => none
  | .mutedPushChannels => fun _ => none

def Store.current (store : Store) (key : Key) : Doc key := (store key).getD (fallback key)

@[simp] theorem Store.current_set (store : Store) (key : Key) (document : Doc key) :
    (store.set key document).current key = document := by
  rw [current, set_self, Option.getD_some]

theorem Store.current_set_of_ne (store : Store) {key other : Key} (document : Doc key)
    (h : other ≠ key) : (store.set key document).current other = store.current other := by
  rw [current, set_of_ne store document h, current]

/-! ## Updates -/

/-- A call of one of the operations that change the store. -/
inductive Update where
  | updatePreferences (patch : UserPreferences)
  | dismissBanner (channelId : UInt32)
  | setSilencedChannel (serverKey : String) (channelId : UInt32) (silenced : Bool)
  | saveUserVolume (hash : String) (volume : ℚ)
  | setMutedPushChannel (serverKey : String) (channelId : UInt32) (muted : Bool)

abbrev Update.key : Update → Key
  | .updatePreferences _ => .preferences
  | .dismissBanner _ => .dismissedPersistenceBanners
  | .setSilencedChannel .. => .silencedChannels
  | .saveUserVolume .. => .userVolumes
  | .setMutedPushChannel .. => .mutedPushChannels

/-- The new map of `setSilencedChannel` and `setMutedPushChannel`, if they write one. -/
def setChannel (map : ChannelMap) (serverKey : String) (channelId : UInt32) (on : Bool) :
    Option ChannelMap :=
  let current := (map serverKey).getD []
  if on && !current.contains channelId then
    some (Function.update map serverKey (some (current ++ [channelId])))
  else if !on then
    some (Function.update map serverKey (some (current.filter (· != channelId))))
  else none

/-- The new document that the operation computes from the current one, if it writes one. -/
def Update.rewrite : (update : Update) → Doc update.key → Option (Doc update.key)
  | .updatePreferences patch, current => some (spread current patch)
  | .dismissBanner channelId, current =>
      if !current.contains channelId then some (current ++ [channelId]) else none
  | .setSilencedChannel serverKey channelId silenced, map =>
      setChannel map serverKey channelId silenced
  | .saveUserVolume hash volume, map =>
      some (Function.update map hash (if volume = 100 then none else some volume))
  | .setMutedPushChannel serverKey channelId muted, map =>
      setChannel map serverKey channelId muted

/-! ## Running operations -/

inductive Phase (δ : Type) where
  /-- The load of the preferences that is under way. -/
  | loading
  /-- The cached preferences, which are there. -/
  | cached (current : δ)
  /-- `getStore()`, before a `store.get`. -/
  | opening
  /-- `store.get(key)`. -/
  | getting
  /-- `getStore()`, before a `store.set`. -/
  | reopening (updated : δ)
  /-- `store.set(key, updated)`. -/
  | setting (updated : δ)
  /-- The answer of `store.set`, which has stored the document. -/
  | stored (updated : δ)
  | done

structure Entry where
  update : Update
  phase : Phase (Doc update.key)

def Entry.resume (prefs : UserPreferences) : Entry → Entry
  | ⟨.updatePreferences patch, .loading⟩ => ⟨.updatePreferences patch, .cached prefs⟩
  | entry => entry

def Entry.patch : Entry → Entry
  | ⟨.updatePreferences patch, .cached current⟩ =>
      ⟨.updatePreferences patch, .reopening (spread current patch)⟩
  | entry => entry

def Entry.caches : Entry → Option UserPreferences
  | ⟨.updatePreferences _, .stored updated⟩ => some updated
  | _ => none

inductive Load where
  | opening
  | getting
  | resolved (prefs : UserPreferences)

inductive CachedPrefs where
  | load
  | prefs (prefs : UserPreferences)

/-- The store, the module variable and the operations in the order in which they were
called. -/
structure State where
  store : Store
  cachedPrefs : Option CachedPrefs := none
  load : Load := .opening
  entries : List Entry := []

/-- What happens. Every other event is an answer that one of the operations has waited for. -/
inductive Event where
  /-- A component calls `getPreferences`. -/
  | read
  | issue (update : Update)
  | answerLoad
  | answer (i : ℕ)

namespace State

def start (store : Store) : State where
  store := store

def getPreferences (self : State) : State :=
  match self.cachedPrefs with
  | some _ => self
  | none => { self with cachedPrefs := some .load, load := .opening }

def issue (self : State) (update : Update) : State :=
  match update with
  | .updatePreferences patch =>
      let phase := match self.cachedPrefs with
        | some (.prefs prefs) => .cached prefs
        | _ => .loading
      { self.getPreferences with
        entries := self.entries ++ [⟨.updatePreferences patch, phase⟩] }
  | update => { self with entries := self.entries ++ [⟨update, .opening⟩] }

def answerLoad (self : State) : State :=
  match self.cachedPrefs, self.load with
  | none, _ => self
  | some _, .opening => { self with load := .getting }
  | some _, .getting => { self with load := .resolved (loaded (self.store .preferences)) }
  | some _, .resolved _ => self

def goto (self : State) (i : ℕ) (entry : Entry) : State :=
  { self with entries := self.entries.set i entry }

def advance (self : State) (i : ℕ) (entry : Entry) : State :=
  match entry.phase with
  | .loading =>
      match self.load with
      | .resolved prefs => self.goto i (entry.resume prefs)
      | _ => self
  | .cached _ => self.goto i entry.patch
  | .opening => self.goto i ⟨entry.update, .getting⟩
  | .getting =>
      match entry.update.rewrite (self.store.current entry.update.key) with
      | some updated => self.goto i ⟨entry.update, .setting updated⟩
      | none => self.goto i ⟨entry.update, .done⟩
  | .reopening updated => self.goto i ⟨entry.update, .setting updated⟩
  | .setting updated =>
      { self.goto i ⟨entry.update, .stored updated⟩ with
        store := self.store.set entry.update.key updated }
  | .stored _ =>
      { self.goto i ⟨entry.update, .done⟩ with
        cachedPrefs := (entry.caches.map .prefs).or self.cachedPrefs }
  | .done => self

def step (self : State) : Event → State
  | .read => self.getPreferences
  | .issue update => self.issue update
  | .answerLoad => self.answerLoad
  | .answer i =>
      match self.entries[i]? with
      | some entry => self.advance i entry
      | none => self

end State

end FancyMumble.Interface.Preferences
