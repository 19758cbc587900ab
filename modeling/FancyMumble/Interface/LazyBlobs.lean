import FancyMumble.Lib.Runs
import Mathlib.Algebra.Order.Ring.Nat

/-!
# Pictures fetched on demand

The pictures of users are fetched when they are to be seen and cached under the number of the
session and the size that was expected. The cache outlives sessions and servers.
-/

namespace FancyMumble.Interface.LazyBlobs

open Lib.Runs

/-! ## Pictures -/

abbrev Bytes := List UInt8

def base64Char (digit : ℕ) : Char :=
  if digit < 26 then Char.ofNat ('A'.toNat + digit)
  else if digit < 52 then Char.ofNat ('a'.toNat + (digit - 26))
  else if digit < 62 then Char.ofNat ('0'.toNat + (digit - 52))
  else if digit = 62 then '+'
  else '/'

def btoa : Bytes → List Char
  | a :: b :: c :: bytes =>
      base64Char (a.toNat / 4) :: base64Char (a.toNat % 4 * 16 + b.toNat / 16) ::
        base64Char (b.toNat % 16 * 4 + c.toNat / 64) :: base64Char (c.toNat % 64) :: btoa bytes
  | [a, b] =>
      [base64Char (a.toNat / 4), base64Char (a.toNat % 4 * 16 + b.toNat / 16),
        base64Char (b.toNat % 16 * 4), '=']
  | [a] => [base64Char (a.toNat / 4), base64Char (a.toNat % 4 * 16), '=', '=']
  | [] => []

def textureToDataUrl (bytes : Bytes) : String :=
  if bytes = [] then ""
  else
    let mime := if bytes[0]? = some 0xff ∧ bytes[1]? = some 0xd8 then "image/jpeg" else "image/png"
    "data:" ++ mime ++ ";base64," ++ String.ofList (btoa bytes)

def serializeBlobLen : Option Bytes → Option ℕ
  | none => none
  | some bytes => if bytes = [] then none else some bytes.length

def picture : Option Bytes → Option String
  | none => none
  | some bytes => if bytes = [] then none else some (textureToDataUrl bytes)

/-! ## The cache -/

structure CachedBlob where
  session : ℤ
  size : ℕ
  value : String

/-- A call of `get_user_texture` in flight: the size that the caller expects, and the reply of the
backend if it has been given. -/
structure Fetch where
  expectedSize : ℕ
  reply : Option (Option Bytes) := none

/-- A component with `useUserAvatar`: what its effect has last run for, the picture shown, and
whether it waits for the fetch of its session. For a user without a texture it does neither. -/
structure Hook where
  session : Option ℤ
  textureSize : Option ℕ
  url : Option String := none
  waiting : Bool := false
  blank : textureSize = none → url = none ∧ waiting = false

/-- The textures of the users of every server, as the backend knows them, and the page. -/
structure Client (ι : Type) where
  active : ι
  textures : ι → UInt32 → Option Bytes := fun _ _ => none
  avatarCache : List CachedBlob := []
  avatarPending : ℤ → Option Fetch := fun _ => none
  hooks : ℕ → Option Hook := fun _ => none

def key (session : UInt32) : ℤ := session.toNat

def cacheMax : ℕ := 200

def lruTouch (cache : List CachedBlob) (entry : CachedBlob) : List CachedBlob :=
  let touched := cache.filter (fun cached => cached.session ≠ entry.session) ++ [entry]
  if touched.length > cacheMax then touched.tail else touched

namespace Hook

def empty (session : Option ℤ) (textureSize : Option ℕ) : Hook where
  session := session
  textureSize := textureSize
  blank := fun _ => ⟨rfl, rfl⟩

def showing (session : ℤ) (size : ℕ) (url : String) : Hook where
  session := some session
  textureSize := some size
  url := some url
  blank := fun h => absurd h (Option.some_ne_none size)

def awaiting (session : ℤ) (size : ℕ) : Hook where
  session := some session
  textureSize := some size
  waiting := true
  blank := fun h => absurd h (Option.some_ne_none size)

def settle (self : Hook) (session : ℤ) (url : Option String) : Hook :=
  if h : self.waiting = true ∧ self.session = some session then
    { self with
      url := url
      waiting := false
      blank := fun hnone => absurd h.1 (by rw [(self.blank hnone).2]; exact Bool.false_ne_true) }
  else self

variable (hook : Hook) (number : ℤ) (result : Option String)

@[simp] theorem settle_session : (hook.settle number result).session = hook.session := by
  unfold settle
  split <;> rfl

@[simp] theorem settle_textureSize :
    (hook.settle number result).textureSize = hook.textureSize := by
  unfold settle
  split <;> rfl

theorem settle_url :
    (hook.settle number result).url =
      if hook.waiting = true ∧ hook.session = some number then result else hook.url := by
  unfold settle
  split <;> rfl

end Hook

namespace Client

variable {ι : Type}

def getCachedUserAvatar (self : Client ι) (session : ℤ) (textureSize : Option ℕ) :
    Option String :=
  match textureSize with
  | none => none
  | some size =>
      if size = 0 then none
      else
        match self.avatarCache.find? fun cached => cached.session = session with
        | none => none
        | some cached => if cached.size = size then some cached.value else none

def fetchUserAvatar (self : Client ι) (session : ℤ) (expectedSize : ℕ) : Client ι :=
  match self.avatarPending session with
  | some _ => self
  | none =>
      { self with
        avatarPending := Function.update self.avatarPending session (some ⟨expectedSize, none⟩) }

def getUserTexture (self : Client ι) (session : UInt32) : Client ι :=
  match self.avatarPending (key session) with
  | some ⟨expectedSize, none⟩ =>
      { self with
        avatarPending :=
          Function.update self.avatarPending (key session)
            (some ⟨expectedSize, some (self.textures self.active session)⟩) }
  | _ => self

def finish (self : Client ι) (session : ℤ) (expectedSize : ℕ) (url : Option String) : Client ι :=
  { self with
    avatarCache :=
      match url with
      | none => self.avatarCache
      | some value => lruTouch self.avatarCache ⟨session, expectedSize, value⟩
    avatarPending := Function.update self.avatarPending session none
    hooks := fun i => (self.hooks i).map fun hook => hook.settle session url }

def complete (self : Client ι) (session : ℤ) : Client ι :=
  match self.avatarPending session with
  | some ⟨expectedSize, some reply⟩ => self.finish session expectedSize (picture reply)
  | _ => self

def fail (self : Client ι) (session : ℤ) : Client ι :=
  match self.avatarPending session with
  | some fetch => self.finish session fetch.expectedSize none
  | none => self

def prefetchUserAvatar (self : Client ι) (session : ℤ) (textureSize : Option ℕ) : Client ι :=
  match textureSize with
  | none => self
  | some size =>
      if size = 0 ∨ (self.getCachedUserAvatar session (some size)).isSome then self
      else self.fetchUserAvatar session size

def setUserAvatarBytes (self : Client ι) (session : ℤ) (bytes : Bytes) : Client ι :=
  if bytes = [] then self
  else
    { self with
      avatarCache :=
        lruTouch self.avatarCache ⟨session, bytes.length, textureToDataUrl bytes⟩ }

def setHook (self : Client ι) (i : ℕ) (hook : Option Hook) : Client ι :=
  { self with hooks := Function.update self.hooks i hook }

def effect (self : Client ι) (i : ℕ) (session : Option ℤ) (textureSize : Option ℕ) : Client ι :=
  match session, textureSize with
  | some number, some size =>
      if size = 0 then self.setHook i (some (.empty session textureSize))
      else
        match self.getCachedUserAvatar number (some size) with
        | some cached => self.setHook i (some (.showing number size cached))
        | none =>
            (self.fetchUserAvatar number size).setHook i (some (.awaiting number size))
  | _, _ => self.setHook i (some (.empty session textureSize))

/-- A component is rendered. Its effect runs when it is mounted and when its user changes. -/
def render (self : Client ι) (i : ℕ) (session : Option ℤ) (textureSize : Option ℕ) : Client ι :=
  match self.hooks i with
  | none => self.effect i session textureSize
  | some hook =>
      if hook.session = session ∧ hook.textureSize = textureSize then self
      else self.effect i session textureSize

def setTexture [DecidableEq ι] (self : Client ι) (server : ι) (session : UInt32)
    (texture : Option Bytes) : Client ι :=
  { self with
    textures :=
      Function.update self.textures server
        (Function.update (self.textures server) session texture) }

end Client

inductive Event (ι : Type) where
  /-- A user comes, changes texture or leaves. -/
  | texture (server : ι) (session : UInt32) (texture : Option Bytes)
  | switchTab (server : ι)
  | render (i : ℕ) (session : Option ℤ) (textureSize : Option ℕ)
  | unmount (i : ℕ)
  | prefetch (session : ℤ) (textureSize : Option ℕ)
  /-- The texture of a registered user who is offline. -/
  | offlineTexture (userId : ℕ) (bytes : Bytes)
  | getUserTexture (session : UInt32)
  | complete (session : ℤ)
  | fail (session : ℤ)

variable {ι : Type}

def step [DecidableEq ι] (self : Client ι) : Event ι → Client ι
  | .texture server session texture => self.setTexture server session texture
  | .switchTab server => { self with active := server }
  | .render i session textureSize => self.render i session textureSize
  | .unmount i => self.setHook i none
  | .prefetch session textureSize => self.prefetchUserAvatar session textureSize
  | .offlineTexture userId bytes => self.setUserAvatarBytes (-(userId + 1)) bytes
  | .getUserTexture session => self.getUserTexture session
  | .complete session => self.complete session
  | .fail session => self.fail session

namespace Client

/-! ## Coherence -/

def current (s : Client ι) (session : UInt32) : Option Bytes := s.textures s.active session

/-- Once no fetch is in flight, the picture that the cache returns for a user of the active server
is the user's picture, and so is the one a component shows that has been rendered for the user. -/
def PicturesRight (s : Client ι) : Prop :=
  (∀ session, s.avatarPending session = none) → ∀ session,
    (∀ url, s.getCachedUserAvatar (key session) (serializeBlobLen (s.current session)) = some url →
      picture (s.current session) = some url) ∧
    ∀ i hook, s.hooks i = some hook → hook.session = some (key session) →
      hook.textureSize = serializeBlobLen (s.current session) → ∀ url, hook.url = some url →
        picture (s.current session) = some url

/-- A picture is held for a session number and a size, in the cache or by a component. -/
def Held (s : Client ι) (session : ℤ) (size : ℕ) (url : String) : Prop :=
  ⟨session, size, url⟩ ∈ s.avatarCache ∨
    ∃ i hook, s.hooks i = some hook ∧ hook.session = some session ∧
      hook.textureSize = some size ∧ hook.url = some url

/-- A picture is about to be held: the reply to a fetch, under the size that was expected when it
began and under the sizes of the components that wait for it. -/
def Arriving (s : Client ι) (session : ℤ) (size : ℕ) (url : String) : Prop :=
  ∃ expectedSize reply, s.avatarPending session = some ⟨expectedSize, some reply⟩ ∧
    picture reply = some url ∧
    (size = expectedSize ∨
      ∃ i hook, s.hooks i = some hook ∧ hook.waiting = true ∧ hook.session = some session ∧
        hook.textureSize = some size)

/-- Where a picture is held under the size of a texture, it is the picture of the texture. -/
def Tells (held : ℕ → String → Prop) (texture : Option Bytes) : Prop :=
  ∀ size url, held size url → serializeBlobLen texture = some size → picture texture = some url

/-- No texture comes into sight under whose number and size another picture is held, and no other
picture arrives under the number and the size of one in sight. -/
def Fits (s : Client ι) : Event ι → Prop
  | .texture server session texture => server = s.active → Tells (s.Held (key session)) texture
  | .switchTab server =>
      ∀ session, Tells (s.Held (key session)) (s.textures server session)
  | .complete number =>
      ∀ session, key session = number → Tells (s.Arriving number) (s.current session)
  | _ => True

def HeldRight (s : Client ι) : Prop := ∀ session, Tells (s.Held (key session)) (s.current session)

/-! ## What the operations hold -/

theorem mem_of_mem_lruTouch {cache : List CachedBlob} {entry cached : CachedBlob}
    (h : cached ∈ lruTouch cache entry) : cached = entry ∨ cached ∈ cache := by
  have htouched : cached ∈ cache.filter (fun c => c.session ≠ entry.session) ++ [entry] := by
    unfold lruTouch at h
    dsimp only at h
    split at h
    · exact List.mem_of_mem_tail h
    · exact h
  rcases List.mem_append.mp htouched with hold | hnew
  · exact .inr (List.mem_filter.mp hold).1
  · exact .inl (List.mem_singleton.mp hnew)

theorem mem_lruTouch (cache : List CachedBlob) (entry : CachedBlob) :
    entry ∈ lruTouch cache entry := by
  unfold lruTouch
  dsimp only
  split
  · next hfull =>
      rw [List.tail_append_of_ne_nil]
      · exact List.mem_append_right _ (List.mem_singleton_self entry)
      · intro hnil
        rw [hnil, List.nil_append, List.length_singleton] at hfull
        exact absurd hfull (by decide)
  · exact List.mem_append_right _ (List.mem_singleton_self entry)

variable {s : Client ι} {session : ℤ} {size : ℕ} {url : String}

theorem mem_of_getCachedUserAvatar
    (h : s.getCachedUserAvatar session (some size) = some url) :
    ⟨session, size, url⟩ ∈ s.avatarCache := by
  unfold getCachedUserAvatar at h
  dsimp only at h
  split at h
  · exact absurd h.symm (Option.some_ne_none _)
  · split at h
    · exact absurd h.symm (Option.some_ne_none _)
    · next cached hfind =>
        obtain ⟨hsize, hvalue⟩ := Option.ite_none_right_eq_some.mp h
        have hsession : cached.session = session := by simpa using List.find?_some hfind
        have hmem := List.mem_of_find?_eq_some hfind
        obtain ⟨session', size', value⟩ := cached
        cases hsize
        cases hsession
        cases hvalue
        exact hmem

theorem fetchUserAvatar_avatarCache (number : ℤ) (expectedSize : ℕ) :
    (s.fetchUserAvatar number expectedSize).avatarCache = s.avatarCache := by
  unfold fetchUserAvatar
  split <;> rfl

theorem fetchUserAvatar_hooks (number : ℤ) (expectedSize : ℕ) :
    (s.fetchUserAvatar number expectedSize).hooks = s.hooks := by
  unfold fetchUserAvatar
  split <;> rfl

theorem held_of_setHook {i : ℕ} {hook : Option Hook}
    (hhook : ∀ shown, hook = some shown → shown.session = some session →
      shown.textureSize = some size → shown.url = some url → s.Held session size url)
    (h : (s.setHook i hook).Held session size url) : s.Held session size url := by
  rcases h with hcached | ⟨j, shown, hj, hsession, hsize, hurl⟩
  · exact .inl hcached
  · dsimp only [setHook] at hj
    by_cases hi : j = i
    · subst hi
      rw [Function.update_self] at hj
      exact hhook shown hj hsession hsize hurl
    · rw [Function.update_of_ne hi] at hj
      exact .inr ⟨j, shown, hj, hsession, hsize, hurl⟩

theorem held_fetchUserAvatar (number : ℤ) (expectedSize : ℕ) :
    (s.fetchUserAvatar number expectedSize).Held session size url ↔ s.Held session size url := by
  unfold Held
  rw [fetchUserAvatar_avatarCache, fetchUserAvatar_hooks]

theorem held_of_effect {i : ℕ} {number : Option ℤ} {textureSize : Option ℕ}
    (h : (s.effect i number textureSize).Held session size url) : s.Held session size url := by
  unfold effect at h
  split at h
  · next number expected =>
      split at h
      · exact held_of_setHook (by rintro _ ⟨⟩ - - ⟨⟩) h
      · split at h
        · next cached hcached =>
            refine held_of_setHook ?_ h
            rintro _ ⟨⟩ ⟨⟩ ⟨⟩ ⟨⟩
            exact .inl (mem_of_getCachedUserAvatar hcached)
        · rw [← held_fetchUserAvatar number expected]
          exact held_of_setHook (by rintro _ ⟨⟩ - - ⟨⟩) h
  · exact held_of_setHook (by rintro _ ⟨⟩ - - ⟨⟩) h

theorem held_of_render {i : ℕ} {number : Option ℤ} {textureSize : Option ℕ}
    (h : (s.render i number textureSize).Held session size url) : s.Held session size url := by
  unfold render at h
  split at h
  · exact held_of_effect h
  · split at h
    · exact h
    · exact held_of_effect h

theorem held_of_prefetch {number : ℤ} {textureSize : Option ℕ}
    (h : (s.prefetchUserAvatar number textureSize).Held session size url) :
    s.Held session size url := by
  unfold prefetchUserAvatar at h
  split at h
  · exact h
  · split at h
    · exact h
    · exact (held_fetchUserAvatar _ _).mp h

theorem held_of_offlineTexture {userId : ℕ} {bytes : Bytes} {user : UInt32}
    (h : (s.setUserAvatarBytes (-(userId + 1)) bytes).Held (key user) size url) :
    s.Held (key user) size url := by
  unfold setUserAvatarBytes at h
  split at h
  · exact h
  · rcases h with hcached | hshown
    · rcases mem_of_mem_lruTouch hcached with hnew | hold
      · -- the numbers of offline users are negative
        have hsession := congrArg CachedBlob.session hnew
        unfold key at hsession
        dsimp only at hsession
        omega
      · exact .inl hold
    · exact .inr hshown

theorem held_getUserTexture (user : UInt32) :
    (s.getUserTexture user).Held session size url ↔ s.Held session size url := by
  unfold getUserTexture
  split <;> exact Iff.rfl

theorem held_of_finish {number : ℤ} {expectedSize : ℕ} {result : Option String}
    (h : (s.finish number expectedSize result).Held session size url) :
    s.Held session size url ∨
      session = number ∧ result = some url ∧
        (size = expectedSize ∨
          ∃ i hook, s.hooks i = some hook ∧ hook.waiting = true ∧ hook.session = some number ∧
            hook.textureSize = some size) := by
  rcases h with hcached | ⟨i, shown, hi, hsession, hsize, hurl⟩
  · cases result with
    | none => exact .inl (.inl hcached)
    | some value =>
        rcases mem_of_mem_lruTouch hcached with hnew | hold
        · cases hnew
          exact .inr ⟨rfl, rfl, .inl rfl⟩
        · exact .inl (.inl hold)
  · obtain ⟨hook, hhook, rfl⟩ := Option.map_eq_some_iff.mp hi
    rw [Hook.settle_session] at hsession
    rw [Hook.settle_textureSize] at hsize
    rw [Hook.settle_url] at hurl
    split at hurl
    · next hwaits =>
        have hnumber := Option.some_inj.mp (hsession.symm.trans hwaits.2)
        exact .inr ⟨hnumber, hurl, .inr ⟨i, hook, hhook, hwaits.1, hwaits.2, hsize⟩⟩
    · exact .inl (.inr ⟨i, hook, hhook, hsession, hsize, hurl⟩)

theorem held_of_complete {number : ℤ} (h : (s.complete number).Held session size url) :
    s.Held session size url ∨ session = number ∧ s.Arriving number size url := by
  unfold complete at h
  split at h
  · next expectedSize reply hpending =>
      rcases held_of_finish h with hheld | ⟨rfl, hpicture, hsize⟩
      · exact .inl hheld
      · exact .inr ⟨rfl, expectedSize, reply, hpending, hpicture, hsize⟩
  · exact .inl h

theorem held_complete {number : ℤ} (h : s.Arriving number size url) :
    (s.complete number).Held number size url := by
  obtain ⟨expectedSize, reply, hpending, hpicture, hsize⟩ := h
  unfold complete
  rw [hpending]
  dsimp only
  rw [hpicture]
  rcases hsize with rfl | ⟨i, hook, hi, hwaiting, hsession, hsize⟩
  · exact .inl (mem_lruTouch s.avatarCache _)
  · refine .inr ⟨i, hook.settle number (some url), ?_, ?_, ?_, ?_⟩
    · dsimp only [finish]
      rw [hi, Option.map_some]
    · rw [Hook.settle_session, hsession]
    · rw [Hook.settle_textureSize, hsize]
    · rw [Hook.settle_url, if_pos ⟨hwaiting, hsession⟩]

theorem held_of_fail {number : ℤ} (h : (s.fail number).Held session size url) :
    s.Held session size url := by
  unfold fail at h
  split at h
  · rcases held_of_finish h with hheld | ⟨-, hnone, -⟩
    · exact hheld
    · exact absurd hnone.symm (Option.some_ne_none url)
  · exact h

/-! ## Runs -/

theorem current_fetchUserAvatar (number : ℤ) (expectedSize : ℕ) :
    (s.fetchUserAvatar number expectedSize).current = s.current := by
  unfold fetchUserAvatar
  split <;> rfl

theorem current_effect (i : ℕ) (number : Option ℤ) (textureSize : Option ℕ) :
    (s.effect i number textureSize).current = s.current := by
  unfold effect
  split
  · split
    · rfl
    · split
      · rfl
      · exact current_fetchUserAvatar _ _
  · rfl

theorem current_render (i : ℕ) (number : Option ℤ) (textureSize : Option ℕ) :
    (s.render i number textureSize).current = s.current := by
  unfold render
  split
  · exact current_effect i number textureSize
  · split
    · rfl
    · exact current_effect i number textureSize

theorem current_prefetch (number : ℤ) (textureSize : Option ℕ) :
    (s.prefetchUserAvatar number textureSize).current = s.current := by
  unfold prefetchUserAvatar
  split
  · rfl
  · split
    · rfl
    · exact current_fetchUserAvatar _ _

theorem current_setUserAvatarBytes (number : ℤ) (bytes : Bytes) :
    (s.setUserAvatarBytes number bytes).current = s.current := by
  unfold setUserAvatarBytes
  split <;> rfl

theorem current_getUserTexture (user : UInt32) :
    (s.getUserTexture user).current = s.current := by
  unfold getUserTexture
  split <;> rfl

theorem current_complete (number : ℤ) : (s.complete number).current = s.current := by
  unfold complete
  split <;> rfl

theorem current_fail (number : ℤ) : (s.fail number).current = s.current := by
  unfold fail
  split <;> rfl

theorem current_setTexture [DecidableEq ι] (server : ι) (user user' : UInt32)
    (texture : Option Bytes) :
    (s.setTexture server user texture).current user' =
      if server = s.active ∧ user' = user then texture else s.current user' := by
  unfold current setTexture
  dsimp only
  by_cases hserver : server = s.active
  · subst hserver
    rw [Function.update_self]
    by_cases huser : user' = user
    · rw [if_pos ⟨rfl, huser⟩, huser, Function.update_self]
    · rw [if_neg fun h => huser h.2, Function.update_of_ne huser]
  · rw [if_neg fun h => hserver h.1, Function.update_of_ne (Ne.symm hserver)]

theorem HeldRight.of_held {t : Client ι} (h : s.HeldRight)
    (hheld : ∀ user size url, t.Held (key user) size url → s.Held (key user) size url)
    (hcurrent : t.current = s.current) : t.HeldRight := by
  intro user size url hthere hsize
  rw [hcurrent] at hsize ⊢
  exact h user size url (hheld user size url hthere) hsize

theorem heldRight_texture_iff [DecidableEq ι] (h : s.HeldRight) (server : ι) (user : UInt32)
    (texture : Option Bytes) :
    (s.setTexture server user texture).HeldRight ↔
      (server = s.active → Tells (s.Held (key user)) texture) := by
  constructor
  · intro hright hserver
    have htells := hright user
    rwa [current_setTexture, if_pos ⟨hserver, rfl⟩] at htells
  · intro hfits user'
    rw [current_setTexture]
    by_cases hsame : server = s.active ∧ user' = user
    · rw [if_pos hsame, hsame.2]
      exact hfits hsame.1
    · rw [if_neg hsame]
      exact h user'

theorem heldRight_complete_iff (h : s.HeldRight) (number : ℤ) :
    (s.complete number).HeldRight ↔
      ∀ user, key user = number → Tells (s.Arriving number) (s.current user) := by
  constructor
  · rintro hright user rfl size url harriving
    rw [← current_complete (s := s) (key user)]
    exact hright user size url (held_complete harriving)
  · intro hfits user size url hheld
    rw [current_complete]
    rcases held_of_complete hheld with hold | ⟨hnumber, harriving⟩
    · exact h user size url hold
    · exact hfits user hnumber size url harriving

/-- A step keeps what is held right when it fits. -/
theorem heldRight_step_iff [DecidableEq ι] (h : s.HeldRight) (e : Event ι) :
    (step s e).HeldRight ↔ s.Fits e := by
  cases e with
  | texture server user texture => exact heldRight_texture_iff h server user texture
  | switchTab server => exact Iff.rfl
  | render i number textureSize =>
      exact iff_of_true (h.of_held (fun _ _ _ => held_of_render) (current_render _ _ _)) trivial
  | unmount i =>
      refine iff_of_true (h.of_held (fun _ _ _ => held_of_setHook ?_) rfl) trivial
      rintro _ ⟨⟩
  | prefetch number textureSize =>
      exact iff_of_true (h.of_held (fun _ _ _ => held_of_prefetch) (current_prefetch _ _)) trivial
  | offlineTexture userId bytes =>
      refine iff_of_true (h.of_held (fun _ _ _ => held_of_offlineTexture) ?_) trivial
      exact current_setUserAvatarBytes _ _
  | getUserTexture user =>
      refine iff_of_true (h.of_held (fun _ _ _ => (held_getUserTexture user).mp) ?_) trivial
      exact current_getUserTexture user
  | complete number => exact heldRight_complete_iff h number
  | fail number =>
      exact iff_of_true (h.of_held (fun _ _ _ => held_of_fail) (current_fail number)) trivial

theorem HeldRight.picturesRight (h : s.HeldRight) : s.PicturesRight := by
  intro _ user
  refine ⟨fun url hurl => ?_, fun i hook hi hsession hsize url hurl => ?_⟩
  · cases hlen : serializeBlobLen (s.current user) with
    | none =>
        rw [hlen] at hurl
        exact absurd hurl.symm (Option.some_ne_none url)
    | some size =>
        rw [hlen] at hurl
        exact h user size url (.inl (mem_of_getCachedUserAvatar hurl)) hlen
  · cases hlen : serializeBlobLen (s.current user) with
    | none =>
        rw [hlen] at hsize
        rw [(hook.blank hsize).1] at hurl
        exact absurd hurl.symm (Option.some_ne_none url)
    | some size =>
        rw [hlen] at hsize
        exact h user size url (.inr ⟨i, hook, hi, hsession, hsize, hurl⟩) hlen

def init (server : ι) : Client ι where
  active := server

theorem not_held_init (server : ι) : ¬(init server).Held session size url := by
  rintro (hcached | ⟨i, hook, hi, -⟩)
  · exact absurd hcached List.not_mem_nil
  · exact absurd hi.symm (Option.some_ne_none hook)

theorem heldRight_init (server : ι) : (init server).HeldRight :=
  fun _ _ _ hheld => absurd hheld (not_held_init server)

/-- What is held is right all along a run when every step fits. -/
theorem heldRight_run_iff [DecidableEq ι] (server : ι) (events : List (Event ι)) :
    Along step (fun s e => (step s e).HeldRight) (init server) events ↔
      Along step Fits (init server) events :=
  along_iff_of_invariant (fun _ e h => heldRight_step_iff h e)
    (fun _ e h hfits => (heldRight_step_iff h e).mpr hfits) (heldRight_init server)

/-- A run whose steps all fit shows the current pictures. -/
theorem pictures_right_along [DecidableEq ι] (server : ι) (events : List (Event ι))
    (h : Along step Fits (init server) events) :
    Along step (fun s e => (step s e).PicturesRight) (init server) events :=
  along_mono (fun _ _ hright => hright.picturesRight) ((heldRight_run_iff server events).mpr h)

theorem key_injective : Function.Injective key := by
  intro user user' h
  exact UInt32.toNat_inj.mp (Int.ofNat_inj.mp h)

/-- A picture that is fetched for a component. -/
theorem pictures_right_along_fetch :
    Along step (fun s e => (step s e).PicturesRight) (init false)
      [.texture false 1 (some [1, 2, 3]), .render 0 (some 1) (some 3), .getUserTexture 1,
        .complete 1] := by
  refine pictures_right_along false _ ⟨?_, trivial, trivial, ?_, trivial⟩
  · exact fun _ _ _ hheld => absurd hheld (not_held_init false)
  · rintro user huser size url ⟨expectedSize, reply, hpending, hpicture, -⟩ -
    obtain rfl : user = 1 := key_injective huser
    cases hpending
    exact hpicture

/-- A new texture of the same size is never fetched. -/
theorem same_size_shows_old :
    ¬Along step (fun s e => (step s e).PicturesRight) (init false)
      [.texture false 1 (some [1, 2, 3]), .prefetch 1 (some 3), .getUserTexture 1, .complete 1,
        .texture false 1 (some [4, 5, 6])] := by
  rintro ⟨-, -, -, -, hright, -⟩
  have hidle : ∀ session : ℤ,
      Function.update (Function.update (Function.update (fun _ => none) 1 (some ⟨3, none⟩)) 1
        (some ⟨3, some (some [1, 2, 3])⟩)) 1 (none : Option Fetch) session = none := by
    intro session
    rw [Function.update_idem, Function.update_idem]
    exact congrFun (Function.update_eq_self 1 fun _ => none) session
  have hshown := (hright hidle 1).1 (textureToDataUrl [1, 2, 3]) (by decide)
  exact absurd hshown (by decide)

end Client

end FancyMumble.Interface.LazyBlobs
