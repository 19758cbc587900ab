import FancyMumble.Client.ChannelState

/-!
# Channel descriptions

A server announces the description of a channel in a `ChannelState`, either the text itself
or only its hash. The client asks for a text that it lacks with a `RequestBlob`, once after
the initial sync and later with each update, and the server answers with another
`ChannelState`.
-/

namespace FancyMumble.Client

open Lib.Runs

inductive Announcement where
  | inline (text : String)
  | hash (hash : List UInt8)

def Announcement.text (blob : List UInt8 → String) : Announcement → String
  | .inline text => text
  | .hash digest => blob digest

def ChannelState.announcement (proto : ChannelState) : Option Announcement :=
  match proto.description, proto.descriptionHash with
  | some text, _ => some (.inline text)
  | none, some digest => some (.hash digest)
  | none, none => none

namespace ChannelState

variable {proto : ChannelState}

theorem description_of_announcement_eq_none (h : proto.announcement = none) :
    proto.description = none := by
  unfold announcement at h
  split at h
  · cases h
  · cases h
  · assumption

theorem description_of_announcement_eq_inline {text : String}
    (h : proto.announcement = some (.inline text)) : proto.description = some text := by
  unfold announcement at h
  split at h
  next htext => cases h; exact htext
  next => cases h
  next => cases h

theorem carried_of_announcement_eq_hash {digest : List UInt8}
    (h : proto.announcement = some (.hash digest)) :
    proto.description = none ∧ proto.descriptionHash = some digest := by
  unfold announcement at h
  split at h
  next => cases h
  next hdesc hdigest => cases h; exact ⟨hdesc, hdigest⟩
  next => cases h

end ChannelState

def ChannelEffect.requestBlob : ChannelEffect → Option UInt32
  | .descriptionFetch id => some id
  | .custodianPinChanged _ _ | .keyGenAndFetch _ | .permissionsRefresh _ | .stateChanged => none

/-- The channels of a client, with what the server has announced last, and how many requests
for a description it has not answered. -/
structure Descriptions where
  table : ChannelTable := {}
  announced : UInt32 → Option Announcement := fun _ => none
  requested : UInt32 → ℕ := fun _ => 0

/-- What happens to the descriptions of a connection. -/
inductive DescriptionEvent where
  | channelState (proto : ChannelState)
  | serverSync
  | answer (id : UInt32)

namespace Descriptions

variable (blob : List UInt8 → String) (s : Descriptions)

def shown (id : UInt32) : String := (s.table.entry id).description

def handle (proto : ChannelState) : Descriptions :=
  { s with
    table := s.table.step proto
    requested := fun id =>
      s.requested id + ((s.table.handle proto).2.filterMap ChannelEffect.requestBlob).count id }

def announce (proto : ChannelState) : Descriptions :=
  match proto.channelId, proto.announcement with
  | some id, some a => { s with announced := Function.update s.announced id (some a) }
  | _, _ => s

def omitted (id : UInt32) : Bool :=
  (s.table.channels id).any fun ch => ch.description.isEmpty && ch.descriptionHash.isSome

def serverSync : Descriptions :=
  { s with
    table := { s.table with synced := true }
    requested := fun id => s.requested id + if s.omitted id then 1 else 0 }

def answer (id : UInt32) : Descriptions :=
  match s.announced id with
  | none => s
  | some a =>
      if s.requested id = 0 then s
      else
        { s with requested := Function.update s.requested id (s.requested id - 1) }.handle
          { channelId := some id, description := some (a.text blob) }

def step : DescriptionEvent → Descriptions
  | .channelState proto => (s.handle proto).announce proto
  | .serverSync => s.serverSync
  | .answer id => s.answer blob id

/-- After the sync, the description of a channel is the announced one once all requests are
answered, and one that is not the announced one has been asked for. -/
structure Current : Prop where
  answered : s.table.synced → (∀ id, s.requested id = 0) →
    ∀ id a, s.announced id = some a → s.shown id = a.text blob
  asked : s.table.synced →
    ∀ id a, s.announced id = some a → s.shown id ≠ a.text blob → 0 < s.requested id

/-- A text that is announced by its hash finds no description, a request that is not
answered, or itself. -/
def LeavesRoom (id : UInt32) (hash : List UInt8) : Prop :=
  s.shown id = "" ∨ 0 < s.requested id ∨ s.shown id = blob hash

/-- Each hash that the client has to act on finds room: a later one when it arrives, an
earlier one at the sync. -/
def HashesFindRoom : DescriptionEvent → Prop
  | .channelState proto => s.table.synced → ∀ id hash, proto.channelId = some id →
      proto.announcement = some (.hash hash) → s.LeavesRoom blob id hash
  | .serverSync => ∀ id hash, s.announced id = some (.hash hash) → s.LeavesRoom blob id hash
  | .answer _ => True

variable {blob s} {proto : ChannelState} {id : UInt32}

/-! ## One message -/

theorem current_iff : s.Current blob ↔ (s.table.synced →
    ∀ id a, s.announced id = some a → s.shown id = a.text blob ∨ 0 < s.requested id) := by
  constructor
  · intro h hsynced id a ha
    by_cases hshown : s.shown id = a.text blob
    · exact .inl hshown
    · exact .inr (h.asked hsynced id a ha hshown)
  · intro h
    refine ⟨fun hsynced hnone id a ha => ?_, fun hsynced id a ha hshown => ?_⟩
    · exact (h hsynced id a ha).resolve_right (by simp [hnone id])
    · exact (h hsynced id a ha).resolve_left hshown

theorem handle_of_none (h : proto.channelId = none) : s.handle proto = s := by
  have htable : s.table.handle proto = (s.table, []) := by simp only [ChannelTable.handle, h]
  simp [handle, ChannelTable.step, htable]

theorem shown_handle (h : proto.channelId = some id) (d : UInt32) :
    (s.handle proto).shown d =
      if d = id then proto.description.getD (s.shown d) else s.shown d := by
  simp only [shown, handle, ChannelTable.step_of_some h, ChannelTable.entry, Function.update_apply]
  split
  next heq => rw [heq]; rfl
  next => rfl

@[simp] theorem synced_handle : (s.handle proto).table.synced = s.table.synced := by
  cases h : proto.channelId with
  | none => rw [handle_of_none h]
  | some id => simp only [handle, ChannelTable.step_of_some h]

@[simp] theorem announced_handle : (s.handle proto).announced = s.announced := rfl

theorem requested_handle (h : proto.channelId = some id) (d : UInt32) :
    (s.handle proto).requested d = s.requested d +
      if d = id ∧ proto.description.getD (s.shown id) = "" ∧
          (proto.descriptionHash.or (s.table.entry id).descriptionHash).isSome ∧ s.table.synced
      then 1 else 0 := by
  have hrequests : (s.table.handle proto).2.filterMap ChannelEffect.requestBlob =
      if proto.description.getD (s.shown id) = "" ∧
          (proto.descriptionHash.or (s.table.entry id).descriptionHash).isSome ∧ s.table.synced
      then [id] else [] := by
    simp [ChannelTable.handle, h, Function.comp_def, applyChannelStateFields, shown,
      apply_ite (List.filterMap ChannelEffect.requestBlob), List.filterMap_cons,
      ChannelEffect.requestBlob, and_assoc]
  simp only [handle, hrequests]
  by_cases hd : d = id
  · subst hd
    simp only [true_and]
    split <;> simp
  · have hd' : id ≠ d := Ne.symm hd
    simp only [hd, false_and, if_false]
    split <;> simp [hd']

theorem le_requested_handle (d : UInt32) : s.requested d ≤ (s.handle proto).requested d :=
  Nat.le_add_right _ _

/-! ## What the table knows of the announcements -/

structure Tracks (s : Descriptions) : Prop where
  inline : ∀ id text, s.announced id = some (.inline text) → s.shown id = text
  hash : ∀ id hash, s.announced id = some (.hash hash) →
    ∃ ch, s.table.channels id = some ch ∧ ch.descriptionHash.isSome

theorem tracks_start : Tracks {} where
  inline := by intro id text h; cases h
  hash := by intro id hash h; cases h

theorem hash_handle (h : ∃ ch, s.table.channels id = some ch ∧ ch.descriptionHash.isSome) :
    ∃ ch, (s.handle proto).table.channels id = some ch ∧ ch.descriptionHash.isSome := by
  obtain ⟨ch, hch, hhash⟩ := h
  cases hid : proto.channelId with
  | none =>
      rw [handle_of_none hid]
      exact ⟨ch, hch, hhash⟩
  | some c =>
      simp only [handle, ChannelTable.step_of_some hid, Function.update_apply]
      split
      next heq =>
        refine ⟨_, rfl, ?_⟩
        simp only [applyChannelStateFields, ChannelTable.entry, ← heq, hch, Option.getD_some,
          Option.isSome_or, hhash, Bool.or_true]
      next => exact ⟨ch, hch, hhash⟩

theorem tracks_channelState (h : s.Tracks) : ((s.handle proto).announce proto).Tracks := by
  cases hid : proto.channelId with
  | none =>
      rw [handle_of_none hid]
      simpa only [announce, hid] using h
  | some c =>
      have hshown := shown_handle (s := s) hid
      cases ha : proto.announcement with
      | none =>
          have hdesc := ChannelState.description_of_announcement_eq_none ha
          simp only [announce, hid, ha]
          refine ⟨fun d text hd => ?_, fun d hash hd => hash_handle (h.hash d hash hd)⟩
          rw [hshown, hdesc, Option.getD_none, ite_self]
          exact h.inline d text hd
      | some a =>
          simp only [announce, hid, ha]
          refine ⟨fun d text hd => ?_, fun d hash hd => ?_⟩
          · simp only [Function.update_apply] at hd
            change (s.handle proto).shown d = text
            rw [hshown]
            split at hd
            next heq =>
              cases hd
              rw [if_pos heq, ChannelState.description_of_announcement_eq_inline ha]
              rfl
            next hne => rw [if_neg hne]; exact h.inline d text hd
          · simp only [Function.update_apply] at hd
            split at hd
            next heq =>
              cases hd
              obtain ⟨-, hdigest⟩ := ChannelState.carried_of_announcement_eq_hash ha
              refine ⟨(applyChannelStateFields (s.table.entry c) proto).1, ?_, ?_⟩
              · change (s.handle proto).table.channels d = _
                simp only [handle, ChannelTable.step_of_some hid, heq, Function.update_self]
              · simp only [applyChannelStateFields, hdigest, Option.some_or, Option.isSome_some]
            next => exact hash_handle (h.hash d hash hd)

theorem answer_of_some {a : Announcement} (ha : s.announced id = some a)
    (hreq : s.requested id ≠ 0) :
    s.answer blob id =
      { s with requested := Function.update s.requested id (s.requested id - 1) }.handle
        { channelId := some id, description := some (a.text blob) } := by
  simp only [answer, ha, if_neg hreq]

theorem shown_answer (blob : List UInt8 → String) {a : Announcement}
    (ha : s.announced id = some a) (hreq : s.requested id ≠ 0) (d : UInt32) :
    (s.answer blob id).shown d = if d = id then a.text blob else s.shown d := by
  rw [answer_of_some ha hreq, shown_handle rfl]
  rfl

theorem answer_cases (blob : List UInt8 → String) (s : Descriptions) (id : UInt32) :
    s.answer blob id = s ∨ ∃ a, s.announced id = some a ∧ s.requested id ≠ 0 := by
  unfold answer
  split
  next => exact .inl rfl
  next a ha =>
    split
    next => exact .inl rfl
    next hreq => exact .inr ⟨a, ha, hreq⟩

theorem tracks_answer (h : s.Tracks) : (s.answer blob id).Tracks := by
  rcases answer_cases blob s id with heq | ⟨a, ha, hreq⟩
  · rwa [heq]
  · have hshown := shown_answer blob ha hreq
    rw [answer_of_some ha hreq] at hshown ⊢
    refine ⟨fun d text hd => ?_, fun d hash hd => hash_handle (h.hash d hash hd)⟩
    rw [hshown]
    split
    next hd' =>
      have htext : some a = some (.inline text) := ha.symm.trans (hd' ▸ hd)
      cases htext
      rfl
    next => exact h.inline d text hd

theorem tracks_step (h : s.Tracks) (e : DescriptionEvent) : (s.step blob e).Tracks := by
  cases e with
  | channelState proto => exact tracks_channelState h
  | serverSync => exact ⟨h.inline, h.hash⟩
  | answer id => exact tracks_answer h

/-! ## Current descriptions -/

/-- At the sync, a channel with a hash and no text is asked for. -/
theorem current_serverSync_iff (h : s.Tracks) :
    s.serverSync.Current blob ↔ s.HashesFindRoom blob .serverSync := by
  have homitted : ∀ id hash, s.announced id = some (.hash hash) →
      (s.omitted id ↔ s.shown id = "") := by
    intro id hash hid
    obtain ⟨ch, hch, hhash⟩ := h.hash id hash hid
    simp [omitted, shown, ChannelTable.entry, hch, hhash]
  have hroom : ∀ id, 0 < s.serverSync.requested id ↔ 0 < s.requested id ∨ s.omitted id := by
    intro id
    simp only [serverSync]
    cases s.omitted id <;> simp
  rw [current_iff]
  constructor
  · intro hcurrent id hash hid
    have := hcurrent rfl id _ hid
    rw [hroom, homitted id hash hid] at this
    rcases this with hshown | hreq | hempty
    · exact .inr (.inr hshown)
    · exact .inr (.inl hreq)
    · exact .inl hempty
  · intro hfind _ id a hid
    cases a with
    | inline text => exact .inl (h.inline id text hid)
    | hash hash =>
        rw [hroom, homitted id hash hid]
        rcases hfind id hash hid with hempty | hreq | hshown
        · exact .inr (.inr hempty)
        · exact .inr (.inl hreq)
        · exact .inl hshown

/-- A message leaves the descriptions current if the hash in it finds room. -/
theorem current_channelState_iff (h : s.Current blob) :
    ((s.handle proto).announce proto).Current blob ↔
      s.HashesFindRoom blob (.channelState proto) := by
  rw [current_iff] at h ⊢
  cases hid : proto.channelId with
  | none =>
      simp only [announce, hid, handle_of_none hid, HashesFindRoom]
      exact iff_of_true h (by simp)
  | some c =>
      have hshown := shown_handle (s := s) hid
      -- what was announced of a channel stays current if its text stays
      have hkept : s.table.synced → ∀ d a, s.announced d = some a →
          (s.handle proto).shown d = s.shown d →
          (s.handle proto).shown d = a.text blob ∨ 0 < (s.handle proto).requested d := by
        intro hsynced d a ha hsame
        rw [hsame]
        exact (h hsynced d a ha).imp_right fun hreq => hreq.trans_le (le_requested_handle d)
      have hother : ∀ d, d ≠ c → (s.handle proto).shown d = s.shown d := by
        intro d hd
        rw [hshown, if_neg hd]
      cases ha : proto.announcement with
      | none =>
          have hdesc := ChannelState.description_of_announcement_eq_none ha
          have hsame : ∀ d, (s.handle proto).shown d = s.shown d := by
            intro d
            rw [hshown, hdesc, Option.getD_none, ite_self]
          simp only [announce, hid, ha, HashesFindRoom]
          refine iff_of_true (fun hsynced d a hd => ?_) (by simp)
          rw [synced_handle] at hsynced
          exact hkept hsynced d a hd (hsame d)
      | some a =>
          simp only [announce, hid, ha, HashesFindRoom, synced_handle, announced_handle]
          cases a with
          | inline text =>
              have htext := ChannelState.description_of_announcement_eq_inline ha
              refine iff_of_true (fun hsynced d a hd => ?_) (by simp)
              change (s.handle proto).shown d = _ ∨ 0 < (s.handle proto).requested d
              simp only [Function.update_apply] at hd
              split at hd
              next heq =>
                cases hd
                rw [hshown, if_pos heq, htext]
                exact .inl rfl
              next hne => exact hkept hsynced d a hd (hother d hne)
          | hash hash =>
              have hcarried := ChannelState.carried_of_announcement_eq_hash ha
              have hsame : (s.handle proto).shown c = s.shown c := by
                rw [hshown, hcarried.1, Option.getD_none, ite_self]
              have hreq : s.table.synced → (0 < (s.handle proto).requested c ↔
                  s.shown c = "" ∨ 0 < s.requested c) := by
                intro hsynced
                rw [requested_handle hid, hcarried.1, hcarried.2]
                simp only [Option.getD_none, Option.some_or, Option.isSome_some, hsynced, and_self,
                  and_true, true_and]
                split <;> simp_all
              constructor
              · intro hcurrent hsynced id' hash' hid' hhash'
                cases hid'
                cases hhash'
                have := hcurrent hsynced c _ (Function.update_self c _ _)
                change (s.handle proto).shown c = _ ∨ 0 < (s.handle proto).requested c at this
                rw [hreq hsynced, hsame] at this
                rcases this with hshown | hempty | hreq
                · exact .inr (.inr hshown)
                · exact .inl hempty
                · exact .inr (.inl hreq)
              · intro hfind hsynced d a hd
                change (s.handle proto).shown d = _ ∨ 0 < (s.handle proto).requested d
                simp only [Function.update_apply] at hd
                split at hd
                next heq =>
                  cases hd
                  rw [heq, hreq hsynced, hsame]
                  rcases hfind hsynced c hash rfl rfl with hempty | hreq | hshown
                  · exact .inr (.inl hempty)
                  · exact .inr (.inr hreq)
                  · exact .inl hshown
                next hne => exact hkept hsynced d a hd (hother d hne)

theorem current_answer (h : s.Current blob) : (s.answer blob id).Current blob := by
  rcases answer_cases blob s id with heq | ⟨a, ha, hreq⟩
  · rwa [heq]
  · have hshown := shown_answer blob ha hreq
    rw [current_iff] at h ⊢
    rw [answer_of_some ha hreq] at hshown ⊢
    simp only [synced_handle, announced_handle]
    intro hsynced d b hb
    rw [hshown]
    split
    next hd =>
      have hsame : some a = some b := ha.symm.trans (hd ▸ hb)
      cases hsame
      exact .inl rfl
    next hne =>
      refine (h hsynced d b hb).imp_right fun hpos => ?_
      refine lt_of_lt_of_le ?_ (le_requested_handle d)
      simpa only [Function.update_apply, if_neg hne] using hpos

theorem current_step_iff (htracks : s.Tracks) (h : s.Current blob) (e : DescriptionEvent) :
    (s.step blob e).Current blob ↔ s.HashesFindRoom blob e := by
  cases e with
  | channelState proto => exact current_channelState_iff h
  | serverSync => exact current_serverSync_iff htracks
  | answer id => exact iff_of_true (current_answer h) trivial

theorem current_start (blob : List UInt8 → String) : Current blob {} :=
  current_iff.mpr nofun

/-- The descriptions stay current exactly in the runs in which every hash finds room. -/
theorem current_run_iff (blob : List UInt8 → String) (events : List DescriptionEvent) :
    Along (step blob) (fun s e => (s.step blob e).Current blob) {} events ↔
      Along (step blob) (HashesFindRoom blob) {} events :=
  along_iff_of_invariant
    (fun s e (hs : s.Tracks ∧ s.Current blob) => current_step_iff hs.1 hs.2 e)
    (fun s e (hs : s.Tracks ∧ s.Current blob) hfind =>
      ⟨tracks_step hs.1 e, (current_step_iff hs.1 hs.2 e).mpr hfind⟩)
    ⟨tracks_start, current_start blob⟩

section Example

private def blobExample : List UInt8 → String
  | [1] => "one"
  | _ => "two"

private def hashesExample : List DescriptionEvent :=
  [.serverSync, .channelState { channelId := some 7, descriptionHash := some [1] }, .answer 7,
    .channelState { channelId := some 7, descriptionHash := some [2] }]

/-- The second of two descriptions is never asked for. -/
theorem second_hash_not_requested :
    ¬∀ (blob : List UInt8 → String) (events : List DescriptionEvent),
      Along (step blob) (fun s e => (s.step blob e).Current blob) {} events := by
  intro h
  have hcurrent := (h blobExample hashesExample).2.2.2.1
  exact absurd (hcurrent.asked rfl 7 (.hash [2]) rfl (by decide)) (by decide)

end Example

end Descriptions

end FancyMumble.Client
