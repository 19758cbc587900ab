import FancyMumble.Interface.Preferences
import FancyMumble.Lib.Settling

/-!
# Updates of the preferences

A field of the preferences is what one operation sets at a time: a preference, the silence of
one channel, the volume of one user. An operation writes a whole document back, with all the
fields that it does not set as it has read them.
-/

namespace FancyMumble.Interface.Preferences

open Lib.Runs Lib.Settling

/-! ## Fields -/

inductive Field where
  | preference (name : String)
  | banner (channelId : UInt32)
  | silenced (serverKey : String) (channelId : UInt32)
  | volume (hash : String)
  | mutedPush (serverKey : String) (channelId : UInt32)
deriving DecidableEq

inductive Value where
  | json (value : Option Json)
  | flag (on : Bool)
  | volume (volume : ℚ)

abbrev Field.key : Field → Key
  | .preference _ => .preferences
  | .banner _ => .dismissedPersistenceBanners
  | .silenced .. => .silencedChannels
  | .volume _ => .userVolumes
  | .mutedPush .. => .mutedPushChannels

def readPreference (prefs : UserPreferences) (name : String) : Option Json :=
  (prefs name).or (DEFAULTS name)

def hasChannel (map : ChannelMap) (serverKey : String) (channelId : UInt32) : Bool :=
  ((map serverKey).getD []).contains channelId

def Field.readIn : (f : Field) → Doc f.key → Value
  | .preference name, prefs => .json (readPreference prefs name)
  | .banner channelId, channels => .flag (List.contains channels channelId)
  | .silenced serverKey channelId, map => .flag (hasChannel map serverKey channelId)
  | .volume hash, map => .volume ((map hash).getD 100)
  | .mutedPush serverKey channelId, map => .flag (hasChannel map serverKey channelId)

def Field.read (store : Store) (f : Field) : Value := f.readIn (store.current f.key)

def Field.setBy : Field → Update → Option Value
  | .preference name, .updatePreferences patch => (patch name).map fun value => .json (some value)
  | .banner channelId, .dismissBanner dismissed =>
      if channelId = dismissed then some (.flag true) else none
  | .silenced serverKey channelId, .setSilencedChannel server channel on =>
      if serverKey = server ∧ channelId = channel then some (.flag on) else none
  | .volume hash, .saveUserVolume user percent =>
      if hash = user then some (.volume percent) else none
  | .mutedPush serverKey channelId, .setMutedPushChannel server channel on =>
      if serverKey = server ∧ channelId = channel then some (.flag on) else none
  | _, _ => none

theorem Field.read_set_of_ne (f : Field) (store : Store) {key : Key} (document : Doc key)
    (h : f.key ≠ key) : f.read (store.set key document) = f.read store := by
  rw [read, store.current_set_of_ne document h, read]

theorem setChannel_some {map updated : ChannelMap} {serverKey : String} {channelId : UInt32}
    {on : Bool} (h : setChannel map serverKey channelId on = some updated) :
    hasChannel updated serverKey channelId = on := by
  unfold setChannel at h
  dsimp only at h
  split at h
  next hnew =>
    cases h
    cases on with
    | true => simp [hasChannel]
    | false => exact absurd hnew (by simp)
  next =>
    split at h
    next hoff =>
      cases h
      cases on with
      | true => exact absurd hoff (by simp)
      | false => simp [hasChannel]
    next => exact absurd h (by simp)

theorem setChannel_none {map : ChannelMap} {serverKey : String} {channelId : UInt32}
    {on : Bool} (h : setChannel map serverKey channelId on = none) :
    hasChannel map serverKey channelId = on := by
  unfold setChannel at h
  dsimp only at h
  split at h
  next => exact absurd h (by simp)
  next hold =>
    split at h
    next => exact absurd h (by simp)
    next hon =>
      cases on with
      | true => simpa [hasChannel] using hold
      | false => exact absurd hon (by simp)

/-- A document that an operation has computed has what the operation sets. -/
theorem read_of_rewrite {update : Update} {current updated : Doc update.key}
    (h : update.rewrite current = some updated) {f : Field} {value : Value}
    (hf : f.setBy update = some value) (store : Store) :
    f.read (store.set update.key updated) = value := by
  cases update with
  | updatePreferences patch =>
      cases f with
      | preference name =>
          cases h
          obtain ⟨json, hjson, rfl⟩ := Option.map_eq_some_iff.mp hf
          simp [Field.read, Field.readIn, readPreference, spread, hjson]
      | _ => exact nomatch hf
  | dismissBanner channelId =>
      cases f with
      | banner =>
          unfold Update.rewrite at h
          obtain ⟨rfl, ⟨⟩⟩ := Option.ite_none_right_eq_some.mp hf
          obtain ⟨-, ⟨⟩⟩ := Option.ite_none_right_eq_some.mp h
          simp [Field.read, Field.readIn]
      | _ => exact nomatch hf
  | setSilencedChannel serverKey channelId silenced =>
      cases f with
      | silenced =>
          obtain ⟨⟨rfl, rfl⟩, ⟨⟩⟩ := Option.ite_none_right_eq_some.mp hf
          simp [Field.read, Field.readIn, setChannel_some h]
      | _ => exact nomatch hf
  | saveUserVolume hash volume =>
      cases f with
      | volume =>
          obtain ⟨rfl, ⟨⟩⟩ := Option.ite_none_right_eq_some.mp hf
          cases h
          by_cases hvolume : volume = 100
          · simp [Field.read, Field.readIn, hvolume]
          · simp [Field.read, Field.readIn, hvolume]
      | _ => exact nomatch hf
  | setMutedPushChannel serverKey channelId muted =>
      cases f with
      | mutedPush =>
          obtain ⟨⟨rfl, rfl⟩, ⟨⟩⟩ := Option.ite_none_right_eq_some.mp hf
          simp [Field.read, Field.readIn, setChannel_some h]
      | _ => exact nomatch hf

theorem read_of_rewrite_none {update : Update} {store : Store}
    (h : update.rewrite (store.current update.key) = none) {f : Field} {value : Value}
    (hf : f.setBy update = some value) : f.read store = value := by
  cases update with
  | updatePreferences patch => exact nomatch h
  | dismissBanner channelId =>
      cases f with
      | banner =>
          unfold Update.rewrite at h
          obtain ⟨rfl, ⟨⟩⟩ := Option.ite_none_right_eq_some.mp hf
          simpa [Field.read, Field.readIn] using h
      | _ => exact nomatch hf
  | setSilencedChannel serverKey channelId silenced =>
      cases f with
      | silenced =>
          obtain ⟨⟨rfl, rfl⟩, ⟨⟩⟩ := Option.ite_none_right_eq_some.mp hf
          rw [Field.read, Field.readIn, setChannel_none h]
      | _ => exact nomatch hf
  | saveUserVolume hash volume => exact nomatch h
  | setMutedPushChannel serverKey channelId muted =>
      cases f with
      | mutedPush =>
          obtain ⟨⟨rfl, rfl⟩, ⟨⟩⟩ := Option.ite_none_right_eq_some.mp hf
          rw [Field.read, Field.readIn, setChannel_none h]
      | _ => exact nomatch hf

theorem hasChannel_setChannel {map updated : ChannelMap} {serverKey server : String}
    {channelId channel : UInt32} {on : Bool}
    (h : setChannel map server channel on = some updated)
    (hother : ¬(serverKey = server ∧ channelId = channel)) :
    hasChannel updated serverKey channelId = hasChannel map serverKey channelId := by
  have hlist : ∀ channels : List UInt32,
      (serverKey = server → channels.contains channelId = hasChannel map serverKey channelId) →
      hasChannel (Function.update map server (some channels)) serverKey channelId =
        hasChannel map serverKey channelId := by
    intro channels hchannels
    by_cases hserver : serverKey = server
    · rw [← hchannels hserver, hserver, hasChannel, Function.update_self, Option.getD_some]
    · rw [hasChannel, Function.update_of_ne hserver, hasChannel]
  unfold setChannel at h
  dsimp only at h
  split at h
  next =>
    cases h
    refine hlist _ fun hserver => ?_
    have hne : channelId ≠ channel := fun heq => hother ⟨hserver, heq⟩
    simp [hasChannel, hserver, hne]
  next =>
    split at h
    next =>
      cases h
      refine hlist _ fun hserver => ?_
      have hne : channelId ≠ channel := fun heq => hother ⟨hserver, heq⟩
      simp [hasChannel, hserver, hne]
    next => exact nomatch h

/-- An operation that has read what is stored changes no other field of it. -/
theorem read_of_rewrite_of_setBy_none {update : Update} {store : Store}
    {updated : Doc update.key}
    (h : update.rewrite (store.current update.key) = some updated) {f : Field}
    (hf : f.setBy update = none) : f.read (store.set update.key updated) = f.read store := by
  by_cases hkey : f.key = update.key
  · cases update with
    | updatePreferences patch =>
        cases f with
        | preference name =>
            cases h
            have hnone : patch name = none := Option.map_eq_none_iff.mp hf
            simp [Field.read, Field.readIn, readPreference, spread, hnone]
        | _ => exact nomatch hkey
    | dismissBanner dismissed =>
        cases f with
        | banner channelId =>
            unfold Update.rewrite at h
            obtain ⟨-, ⟨⟩⟩ := Option.ite_none_right_eq_some.mp h
            have hne : channelId ≠ dismissed := fun heq => nomatch (if_pos heq).symm.trans hf
            simp [Field.read, Field.readIn, hne]
        | _ => exact nomatch hkey
    | setSilencedChannel server channel on =>
        cases f with
        | silenced serverKey channelId =>
            have hother : ¬(serverKey = server ∧ channelId = channel) :=
              fun heq => nomatch (if_pos heq).symm.trans hf
            simp [Field.read, Field.readIn, hasChannel_setChannel h hother]
        | _ => exact nomatch hkey
    | saveUserVolume user percent =>
        cases f with
        | volume hash =>
            cases h
            have hne : hash ≠ user := fun heq => nomatch (if_pos heq).symm.trans hf
            simp [Field.read, Field.readIn, hne]
        | _ => exact nomatch hkey
    | setMutedPushChannel server channel on =>
        cases f with
        | mutedPush serverKey channelId =>
            have hother : ¬(serverKey = server ∧ channelId = channel) :=
              fun heq => nomatch (if_pos heq).symm.trans hf
            simp [Field.read, Field.readIn, hasChannel_setChannel h hother]
        | _ => exact nomatch hkey
  · exact f.read_set_of_ne store updated hkey

theorem readPreference_loaded (store : Store) (name : String) :
    readPreference (loaded (store .preferences)) name =
      readPreference (store.current .preferences) name := by
  unfold loaded Store.current
  cases store .preferences with
  | none => rfl
  | some prefs => simp [readPreference, spread, Option.or_assoc]

/-! ## Effects -/

namespace Phase

def isApplied {δ : Type} : Phase δ → Bool
  | stored _ => true
  | done => true
  | _ => false

def isDone {δ : Type} : Phase δ → Bool
  | done => true
  | _ => false

def updated {δ : Type} : Phase δ → Option δ
  | reopening updated => some updated
  | setting updated => some updated
  | stored updated => some updated
  | _ => none

end Phase

def Field.effect (f : Field) (entry : Entry) : Option Value :=
  if entry.phase.isApplied then f.setBy entry.update else none

theorem Field.effect_of_applied (f : Field) {entry : Entry}
    (h : entry.phase.isApplied = true) : f.effect entry = f.setBy entry.update := if_pos h

theorem Field.effect_of_not_applied (f : Field) {entry : Entry}
    (h : entry.phase.isApplied = false) : f.effect entry = none :=
  if_neg (h ▸ Bool.false_ne_true)

def Entry.Carries (entry : Entry) : Prop :=
  ∀ updated ∈ entry.phase.updated, ∀ f : Field, ∀ value ∈ f.setBy entry.update,
    ∀ store : Store, f.read (store.set entry.update.key updated) = value

theorem Entry.caches_of_not_applied {entry : Entry} (h : entry.phase.isApplied = false) :
    entry.caches = none := by
  obtain ⟨update, phase⟩ := entry
  cases update with
  | updatePreferences patch =>
      cases phase with
      | stored updated => exact nomatch h
      | _ => rfl
  | _ => rfl

theorem Entry.key_ne_preferences {update : Update} {updated : Doc update.key}
    (h : Entry.caches ⟨update, .stored updated⟩ = none) : update.key ≠ .preferences := by
  cases update with
  | updatePreferences patch => exact nomatch h
  | _ => exact nofun

def issued (events : List Event) : List Update :=
  events.filterMap fun
    | .issue update => some update
    | _ => none

namespace State

def cachedCopy (self : State) : Option UserPreferences :=
  match self.cachedPrefs, self.load with
  | some (.prefs prefs), _ => some prefs
  | some .load, .resolved prefs => some prefs
  | _, _ => none

def Shows (self : State) (prefs : UserPreferences) : Prop :=
  ∀ name, readPreference prefs name = readPreference (self.store.current .preferences) name

def Completed (self : State) : Prop := ∀ entry ∈ self.entries, entry.phase.isDone = true

/-- The new document differs from the stored one only in fields that the operation sets and
that no later one has set already. -/
def WritesOnlyItsOwn (self : State) (i : ℕ) (update : Update) (updated : Doc update.key) :
    Prop :=
  ∀ f : Field, f.read (self.store.set update.key updated) ≠ f.read self.store →
    (f.setBy update).isSome ∧ ∀ later ∈ self.entries.drop (i + 1), f.effect later = none

def CachesStored (self : State) (i : ℕ) (entry : Entry) : Prop :=
  (∀ other ∈ self.entries.eraseIdx i, other.caches = none) →
    ∀ prefs ∈ entry.caches, self.Shows prefs

/-- No document is stored or cached from a read that is out of date. -/
def Careful (self : State) : Event → Prop
  | .answer i => ∀ entry ∈ self.entries[i]?,
      match entry.phase with
      | .setting updated => self.WritesOnlyItsOwn i entry.update updated
      | .stored _ => self.CachesStored i entry
      | _ => True
  | _ => True

theorem writesOnlyItsOwn_of_rewrite {self : State} {i : ℕ} {update : Update}
    {updated : Doc update.key}
    (h : update.rewrite (self.store.current update.key) = some updated)
    (hlater : ∀ later ∈ self.entries.drop (i + 1), ∀ f : Field,
      (f.setBy update).isSome → f.effect later = none) :
    self.WritesOnlyItsOwn i update updated := by
  intro f hne
  cases hset : f.setBy update with
  | none => exact absurd (read_of_rewrite_of_setBy_none h hset) hne
  | some value => exact ⟨rfl, fun later hmem => hlater later hmem f (by rw [hset]; rfl)⟩

/-- The store and the cached copy after some updates of a store. -/
structure NothingLost (before : Store) (updates : List Update) (after : State) : Prop where
  stored : ∀ f : Field, f.read after.store = settled f.setBy (f.read before) updates
  cached : ∀ prefs ∈ after.cachedCopy, after.Shows prefs
  present : (∃ patch, .updatePreferences patch ∈ updates) → after.cachedCopy.isSome

/-! ## The invariant -/

/-- The store has the effects of the operations so far, in the order in which they were
called. -/
structure Kept (before : Store) (state : State) : Prop where
  fields : ∀ f : Field, f.read state.store = settled f.effect (f.read before) state.entries
  carries : ∀ entry ∈ state.entries, entry.Carries
  cached : (∀ entry ∈ state.entries, entry.caches = none) →
    ∀ prefs ∈ state.cachedCopy, state.Shows prefs
  /-- An update of the preferences leaves them in the cache. -/
  present : ∀ patch, ⟨.updatePreferences patch, .done⟩ ∈ state.entries →
    ∃ prefs, state.cachedPrefs = some (.prefs prefs)

theorem kept_start (store : Store) : Kept store (start store) where
  fields _ := rfl
  carries _ hentry := absurd hentry List.not_mem_nil
  cached _ _ hprefs := nomatch hprefs
  present _ hpatch := absurd hpatch List.not_mem_nil

section Steps

variable {before : Store} {self : State} {i : ℕ} {entry : Entry}

theorem forall_mem_goto {P : Entry → Prop} (h : ∀ other ∈ self.entries, P other)
    {moved : Entry} (hmoved : P moved) : ∀ other ∈ (self.goto i moved).entries, P other := by
  intro other hother
  rcases List.mem_or_eq_of_mem_set hother with hold | rfl
  · exact h other hold
  · exact hmoved

theorem forall_mem_eraseIdx {P : Entry → Prop} {moved : Entry}
    (h : ∀ other ∈ (self.goto i moved).entries, P other) :
    ∀ other ∈ self.entries.eraseIdx i, P other := by
  intro other hother
  obtain ⟨j, hne, hj⟩ := List.mem_eraseIdx_iff_getElem?.mp hother
  refine h other (List.mem_iff_getElem?.mpr ⟨j, ?_⟩)
  show (self.entries.set i moved)[j]? = some other
  rw [List.getElem?_set_ne (Ne.symm hne), hj]

theorem forall_caches_of_goto (hentry : self.entries[i]? = some entry)
    (hcaches : entry.caches = none) {moved : Entry}
    (h : ∀ other ∈ (self.goto i moved).entries, other.caches = none) :
    ∀ other ∈ self.entries, other.caches = none := by
  intro other hother
  by_cases heq : other = entry
  · rw [heq, hcaches]
  · exact forall_mem_eraseIdx h other (mem_eraseIdx_of_ne hentry hother heq)

theorem Kept.goto (h : Kept before self) (hentry : self.entries[i]? = some entry)
    (hold : entry.phase.isApplied = false) {moved : Entry}
    (hnew : moved.phase.isApplied = false) (hcarries : moved.Carries) :
    Kept before (self.goto i moved) where
  fields f := by
    refine (h.fields f).trans (settled_set_of_eq hentry ?_).symm
    rw [f.effect_of_not_applied hnew, f.effect_of_not_applied hold]
  carries := forall_mem_goto h.carries hcarries
  cached hcaches prefs hprefs :=
    h.cached (forall_caches_of_goto hentry (Entry.caches_of_not_applied hold) hcaches) prefs hprefs
  present patch hpatch := by
    rcases List.mem_or_eq_of_mem_set hpatch with hmem | rfl
    · exact h.present patch hmem
    · exact nomatch hnew

theorem Kept.finish (h : Kept before self) (hentry : self.entries[i]? = some entry)
    (hold : entry.phase.isApplied = false)
    (hrewrite : entry.update.rewrite (self.store.current entry.update.key) = none) :
    Kept before (self.goto i ⟨entry.update, .done⟩) where
  fields f := by
    show f.read self.store = settled f.effect _ (self.entries.set i ⟨entry.update, .done⟩)
    rw [settled_set hentry (f.effect_of_not_applied hold), ← h.fields f,
      f.effect_of_applied rfl]
    split
    next =>
      cases hvalue : f.setBy entry.update with
      | none => rfl
      | some value => exact read_of_rewrite_none hrewrite hvalue
    next => rfl
  carries := forall_mem_goto h.carries fun updated hupdated => nomatch hupdated
  cached hcaches prefs hprefs :=
    h.cached (forall_caches_of_goto hentry (Entry.caches_of_not_applied hold) hcaches) prefs hprefs
  present patch hpatch := by
    rcases List.mem_or_eq_of_mem_set hpatch with hmem | heq
    · exact h.present patch hmem
    · obtain ⟨update, phase⟩ := entry
      cases heq
      exact nomatch hrewrite

section Storing

variable {update : Update} {updated : Doc update.key}

theorem Kept.write (h : Kept before self)
    (hentry : self.entries[i]? = some ⟨update, .setting updated⟩)
    (hcareful : self.WritesOnlyItsOwn i update updated) :
    Kept before { self.goto i ⟨update, .stored updated⟩ with
      store := self.store.set update.key updated } where
  fields f := by
    have hcarries := h.carries _ (List.mem_of_getElem? hentry) updated rfl
    show f.read (self.store.set update.key updated) =
      settled f.effect _ (self.entries.set i ⟨update, .stored updated⟩)
    rw [settled_set hentry (f.effect_of_not_applied rfl), ← h.fields f, f.effect_of_applied rfl]
    have hsame (hkeeps : f.setBy update = none ∨
        lastSet f.effect (self.entries.drop (i + 1)) ≠ none) :
        f.read (self.store.set update.key updated) = f.read self.store := by
      by_contra hne
      obtain ⟨hset, hlater⟩ := hcareful f hne
      rcases hkeeps with hnone | hsome
      · rw [hnone] at hset
        exact nomatch hset
      · exact hsome (lastSet_eq_none_iff.mpr hlater)
    split
    next =>
      cases hvalue : f.setBy update with
      | none => exact hsame (.inl hvalue)
      | some value => exact hcarries f value hvalue self.store
    next hlater => exact hsame (.inr hlater)
  carries := forall_mem_goto h.carries fun other hother f value hvalue store => by
    cases hother
    exact h.carries _ (List.mem_of_getElem? hentry) updated rfl f value hvalue store
  cached hcaches prefs hprefs := by
    have hshows : self.Shows prefs :=
      h.cached (forall_caches_of_goto hentry (Entry.caches_of_not_applied rfl) hcaches) prefs hprefs
    have hwritten := hcaches ⟨update, .stored updated⟩
      (List.mem_set (List.getElem?_eq_some_iff.mp hentry).1 _)
    intro name
    show _ = readPreference ((self.store.set update.key updated).current .preferences) name
    rw [hshows name,
      self.store.current_set_of_ne updated (Entry.key_ne_preferences hwritten).symm]
  present patch hpatch := by
    rcases List.mem_or_eq_of_mem_set hpatch with hmem | heq
    · exact h.present patch hmem
    · exact nomatch heq

theorem Kept.conclude (h : Kept before self)
    (hentry : self.entries[i]? = some ⟨update, .stored updated⟩)
    (hcareful : self.CachesStored i ⟨update, .stored updated⟩) :
    Kept before { self.goto i ⟨update, .done⟩ with
      cachedPrefs := ((Entry.caches ⟨update, .stored updated⟩).map .prefs).or
        self.cachedPrefs } where
  fields f := by
    refine (h.fields f).trans (settled_set_of_eq hentry ?_).symm
    rw [f.effect_of_applied rfl, f.effect_of_applied rfl]
  carries := forall_mem_goto h.carries fun updated hupdated => nomatch hupdated
  cached hcaches prefs hprefs := by
    have hothers := forall_mem_eraseIdx hcaches
    cases hentryCaches : Entry.caches ⟨update, .stored updated⟩ with
    | some written =>
        rw [hentryCaches] at hprefs
        obtain rfl : written = prefs := Option.some.inj hprefs
        exact hcareful hothers written hentryCaches
    | none =>
        rw [hentryCaches] at hprefs
        exact h.cached (forall_caches_of_goto hentry hentryCaches hcaches) prefs hprefs
  present patch hpatch := by
    rcases List.mem_or_eq_of_mem_set hpatch with hmem | heq
    · obtain ⟨prefs, hprefs⟩ := h.present patch hmem
      cases Entry.caches ⟨update, .stored updated⟩ with
      | some written => exact ⟨written, rfl⟩
      | none => exact ⟨prefs, hprefs⟩
    · cases heq
      exact ⟨updated, rfl⟩

end Storing

theorem Kept.advance (h : Kept before self) (hentry : self.entries[i]? = some entry)
    (hcareful : self.Careful (.answer i)) : Kept before (self.advance i entry) := by
  have hentryCareful := hcareful entry hentry
  obtain ⟨update, phase⟩ := entry
  unfold State.advance
  cases phase with
  | loading =>
      dsimp only
      cases self.load with
      | resolved prefs =>
          cases update with
          | updatePreferences patch => exact h.goto hentry rfl rfl fun _ hnone => nomatch hnone
          | _ => exact h.goto hentry rfl rfl fun _ hnone => nomatch hnone
      | _ => exact h
  | cached current =>
      cases update with
      | updatePreferences patch =>
          refine h.goto hentry rfl rfl fun updated hupdated f value hvalue => ?_
          have hrewrite : (Update.updatePreferences patch).rewrite current = some updated :=
            hupdated
          exact read_of_rewrite hrewrite hvalue
      | _ => exact h.goto hentry rfl rfl fun _ hnone => nomatch hnone
  | opening => exact h.goto hentry rfl rfl fun _ hnone => nomatch hnone
  | getting =>
      dsimp only
      cases hrewrite : update.rewrite (self.store.current update.key) with
      | none => exact h.finish hentry rfl hrewrite
      | some written =>
          refine h.goto hentry rfl rfl fun updated hupdated f value hvalue => ?_
          cases hupdated
          exact read_of_rewrite hrewrite hvalue
  | reopening written =>
      refine h.goto hentry rfl rfl fun updated hupdated => ?_
      cases hupdated
      exact h.carries _ (List.mem_of_getElem? hentry) written rfl
  | setting updated => exact h.write hentry hentryCareful
  | stored updated => exact h.conclude hentry hentryCareful
  | done => exact h

theorem entries_getPreferences (self : State) : self.getPreferences.entries = self.entries := by
  unfold getPreferences
  cases self.cachedPrefs <;> rfl

theorem Kept.getPreferences (h : Kept before self) : Kept before self.getPreferences := by
  unfold State.getPreferences
  cases hcached : self.cachedPrefs with
  | some cached => exact h
  | none =>
      refine ⟨h.fields, h.carries, fun _ _ hprefs => (nomatch hprefs),
        fun patch hpatch => ?_⟩
      obtain ⟨prefs, hprefs⟩ := h.present patch hpatch
      rw [hcached] at hprefs
      exact nomatch hprefs

theorem Kept.call (h : Kept before self) (happlied : entry.phase.isApplied = false)
    (hupdated : entry.phase.updated = none) :
    Kept before { self with entries := self.entries ++ [entry] } where
  fields f := by
    show f.read self.store = settled f.effect _ (self.entries ++ [entry])
    rw [settled_concat, f.effect_of_not_applied happlied, Option.getD_none, ← h.fields f]
  carries other hother := by
    rcases List.mem_append.mp hother with hold | hnew
    · exact h.carries other hold
    · cases List.mem_singleton.mp hnew
      intro updated hsome
      rw [hupdated] at hsome
      exact nomatch hsome
  cached hcaches := h.cached fun other hother => hcaches other (List.mem_append_left _ hother)
  present patch hpatch := by
    rcases List.mem_append.mp hpatch with hold | hnew
    · exact h.present patch hold
    · cases List.mem_singleton.mp hnew
      exact nomatch happlied

theorem Kept.issue (h : Kept before self) (update : Update) :
    Kept before (self.issue update) := by
  cases update with
  | updatePreferences patch =>
      unfold State.issue
      dsimp only
      rw [← self.entries_getPreferences]
      split
      · exact h.getPreferences.call rfl rfl
      · exact h.getPreferences.call rfl rfl
  | _ => exact h.call rfl rfl

theorem Kept.answerLoad (h : Kept before self) : Kept before self.answerLoad := by
  obtain ⟨store, cachedPrefs, load, entries⟩ := self
  cases cachedPrefs with
  | none => exact h
  | some cached =>
      cases load with
      | opening =>
          refine ⟨h.fields, h.carries, fun hcaches prefs hprefs => ?_, h.present⟩
          cases cached with
          | load => exact nomatch hprefs
          | prefs copy => exact h.cached hcaches prefs hprefs
      | getting =>
          refine ⟨h.fields, h.carries, fun hcaches prefs hprefs => ?_, h.present⟩
          cases cached with
          | load =>
              cases hprefs
              exact readPreference_loaded store
          | prefs copy => exact h.cached hcaches prefs hprefs
      | resolved prefs => exact h

theorem Kept.step (h : Kept before self) (event : Event) (hcareful : self.Careful event) :
    Kept before (self.step event) := by
  cases event with
  | read => exact h.getPreferences
  | issue update => exact h.issue update
  | answerLoad => exact h.answerLoad
  | answer i =>
      unfold State.step
      dsimp only
      cases hentry : self.entries[i]? with
      | none => exact h
      | some entry => exact h.advance hentry hcareful

end Steps

/-! ## Runs -/

theorem updates_goto {self : State} {i : ℕ} {entry moved : Entry}
    (hentry : self.entries[i]? = some entry) (h : moved.update = entry.update) :
    (self.goto i moved).entries.map Entry.update = self.entries.map Entry.update := by
  obtain ⟨hi, rfl⟩ := List.getElem?_eq_some_iff.mp hentry
  calc (self.entries.set i moved).map Entry.update
      = (self.entries.map Entry.update).set i moved.update := List.map_set
    _ = (self.entries.map Entry.update).set i self.entries[i].update := by rw [h]
    _ = (self.entries.set i self.entries[i]).map Entry.update := List.map_set.symm
    _ = self.entries.map Entry.update := by rw [List.set_getElem_self]

theorem updates_advance {self : State} {i : ℕ} {entry : Entry}
    (hentry : self.entries[i]? = some entry) :
    (self.advance i entry).entries.map Entry.update = self.entries.map Entry.update := by
  obtain ⟨update, phase⟩ := entry
  unfold advance
  cases phase with
  | loading =>
      dsimp only
      cases self.load with
      | resolved prefs => cases update <;> exact updates_goto hentry rfl
      | _ => rfl
  | cached current => cases update <;> exact updates_goto hentry rfl
  | getting =>
      dsimp only
      cases update.rewrite (self.store.current update.key) with
      | none => exact updates_goto hentry rfl
      | some written => exact updates_goto hentry rfl
  | done => rfl
  | _ => exact updates_goto hentry rfl

theorem updates_step (self : State) (event : Event) :
    (self.step event).entries.map Entry.update =
      self.entries.map Entry.update ++ issued [event] := by
  cases event with
  | read =>
      show self.getPreferences.entries.map Entry.update = _ ++ []
      rw [self.entries_getPreferences, List.append_nil]
  | issue update =>
      show (self.issue update).entries.map Entry.update = _ ++ [update]
      cases update <;> exact List.map_append
  | answerLoad =>
      show self.answerLoad.entries.map Entry.update = _ ++ []
      unfold answerLoad
      rw [List.append_nil]
      split <;> rfl
  | answer i =>
      show (self.step (.answer i)).entries.map Entry.update = _ ++ []
      rw [List.append_nil, step]
      cases hentry : self.entries[i]? with
      | none => rfl
      | some entry => exact updates_advance hentry

theorem updates_run (self : State) (events : List Event) :
    (run step self events).entries.map Entry.update =
      self.entries.map Entry.update ++ issued events := by
  induction events generalizing self with
  | nil => exact (List.append_nil _).symm
  | cons event events ih =>
      rw [run_cons, ih, updates_step, List.append_assoc]
      exact congrArg _ (List.filterMap_append (l := [event])).symm

theorem settled_effect_of_completed {self : State} (h : self.Completed) (f : Field)
    (value : Value) :
    settled f.effect value self.entries =
      settled f.setBy value (self.entries.map Entry.update) := by
  have happlied : ∀ entry ∈ self.entries, f.effect entry = (f.setBy ∘ Entry.update) entry := by
    intro entry hentry
    have hdone := h entry hentry
    obtain ⟨update, phase⟩ := entry
    cases phase with
    | done => exact f.effect_of_applied rfl
    | _ => exact nomatch hdone
  unfold settled lastSet
  rw [List.filterMap_map, List.filterMap_congr happlied]

/-- In a run without writes and caches from outdated reads, once all updates have completed,
the store and the cached preferences have the effect of every one, in the order in which they
were issued. -/
theorem updates_kept_run (before : Store) {events : List Event}
    (hcareful : Along step Careful (start before) events)
    (hcompleted : (run step (start before) events).Completed) :
    NothingLost before (issued events) (run step (start before) events) := by
  have hstep : ∀ self event, Kept before self → Careful self event →
      Kept before (step self event) :=
    fun self event h => h.step event
  have h : Kept before (run step (start before) events) :=
    invariant_run hstep (kept_start before) hcareful
  have hupdates : (run step (start before) events).entries.map Entry.update = issued events :=
    updates_run (start before) events
  refine ⟨fun f => ?_, h.cached fun entry hentry => ?_, ?_⟩
  · rw [h.fields f, settled_effect_of_completed hcompleted, hupdates]
  · have hdone := hcompleted entry hentry
    obtain ⟨update, phase⟩ := entry
    cases phase with
    | done => cases update <;> rfl
    | _ => exact nomatch hdone
  · rintro ⟨patch, hpatch⟩
    rw [← hupdates] at hpatch
    obtain ⟨⟨update, phase⟩, hentry, rfl⟩ := List.mem_map.mp hpatch
    have hdone := hcompleted _ hentry
    cases phase with
    | done =>
        obtain ⟨prefs, hprefs⟩ := h.present patch hentry
        unfold cachedCopy
        rw [hprefs]
        rfl
    | _ => exact nomatch hdone

def exampleEvents : List Event :=
  [.issue (.updatePreferences fun name =>
      if name = "streamerMode" then some (.bool true) else none),
    .issue (.saveUserVolume "alice" 50), .answerLoad, .answerLoad, .answer 1, .answer 1,
    .answer 0, .answer 0, .answer 0, .answer 0, .answer 1, .answer 0, .answer 1]

def emptyStore : Store := fun _ => none

theorem updates_kept_run_example :
    NothingLost emptyStore (issued exampleEvents)
      (run step (start emptyStore) exampleEvents) := by
  apply updates_kept_run emptyStore
  · refine ⟨trivial, trivial, trivial, trivial, ?_, ?_, ?_, ?_, ?_, ?_, ?_, ?_, ?_, trivial⟩
    all_goals
      intro entry hentry
      cases hentry
    · trivial
    · trivial
    · trivial
    · trivial
    · trivial
    · apply writesOnlyItsOwn_of_rewrite rfl
      intro later hlater f _
      cases List.mem_singleton.mp hlater
      rfl
    · apply writesOnlyItsOwn_of_rewrite rfl
      exact fun later hlater => absurd hlater List.not_mem_nil
    · intro _ prefs hprefs name
      cases hprefs
      rfl
    · exact fun _ prefs hprefs => nomatch hprefs
  · intro entry hentry
    rcases List.mem_cons.mp hentry with rfl | hentry
    · rfl
    · cases List.mem_singleton.mp hentry
      rfl

def overlappingEvents : List Event :=
  [.issue (.saveUserVolume "alice" 50), .issue (.saveUserVolume "bob" 70), .answer 0, .answer 1,
    .answer 0, .answer 1, .answer 0, .answer 1, .answer 0, .answer 1]

/-- The volume of one user is lost when that of another one is stored. -/
theorem overlapping_volume_lost :
    (run step (start emptyStore) overlappingEvents).Completed ∧
      ¬NothingLost emptyStore (issued overlappingEvents)
        (run step (start emptyStore) overlappingEvents) := by
  constructor
  · intro entry hentry
    rcases List.mem_cons.mp hentry with rfl | hentry
    · rfl
    · cases List.mem_singleton.mp hentry
      rfl
  · intro h
    have hvolume : Value.volume 100 = Value.volume 50 := h.stored (.volume "alice")
    exact absurd (Value.volume.inj hvolume) (by decide)

end State

end FancyMumble.Interface.Preferences
