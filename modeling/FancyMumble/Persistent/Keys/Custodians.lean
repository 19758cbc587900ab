import FancyMumble.Lib.Runs
import FancyMumble.Persistent.Keys.KeyManager

/-!
# Pinned custodian lists

The custodian list of a channel is trusted on first use: the server announces lists, the
user confirms the first one and accepts later ones, and a failed key challenge cleans the
channel up. The history of a channel records what was announced and what the user agreed
to; the pin that the key manager keeps is compared with it.
-/

namespace FancyMumble.Persistent

open Lib.Runs

/-- What happens to the custodian list of a channel. -/
inductive CustodianEvent where
  /-- A list from the server. -/
  | announced (custodians : List String)
  /-- The user accepts a changed list. -/
  | accepted
  /-- The user confirms the list. -/
  | confirmed
  /-- The server's verdict on our key. -/
  | challengeResult (passed : Bool)

def CustodianEvent.isServerMessage : CustodianEvent → Bool
  | .announced _ | .challengeResult _ => true
  | .accepted | .confirmed => false

/-! ## The history of a channel -/

/-- The pin of a channel, with the lists that the user has agreed to, the latest first,
and the list that was announced last. -/
structure PinHistory where
  pin : Option CustodianPinState := none
  approved : List (List String) := []
  announced : Option (List String) := none

namespace PinHistory

def pinAfter (pin : Option CustodianPinState) : CustodianEvent → Option CustodianPinState
  | .announced custodians =>
      match pin with
      | some state =>
          if state.pinned = custodians then some state
          else some { state with pendingUpdate := some custodians }
      | none => some (.firstObservation custodians)
  | .accepted =>
      pin.map fun state =>
        { pinned := state.pendingUpdate.getD state.pinned, confirmed := true }
  | .confirmed => pin.map fun state => { state with confirmed := true }
  | .challengeResult passed => if passed then pin else none

theorem pinAfter_announced_eq_iff {pin : Option CustodianPinState} {custodians : List String} :
    pinAfter pin (.announced custodians) = pin ↔
      ∃ state, pin = some state ∧
        (state.pinned = custodians ∨ state.pendingUpdate = some custodians) := by
  cases pin with
  | none => simp [pinAfter]
  | some state =>
      simp only [pinAfter]
      split
      next hpinned => exact iff_of_true rfl ⟨state, rfl, .inl hpinned⟩
      next hpinned =>
        constructor
        · intro hsame
          refine ⟨state, rfl, .inr ?_⟩
          rw [← Option.some.inj hsame]
        · rintro ⟨_, ⟨⟩, hsame | hpending⟩
          · exact absurd hsame hpinned
          · rw [← hpending]

def step (h : PinHistory) (event : CustodianEvent) : PinHistory where
  pin := pinAfter h.pin event
  approved :=
    match event with
    | .accepted | .confirmed =>
        ((pinAfter h.pin event).map CustodianPinState.pinned).toList ++ h.approved
    | .announced _ | .challengeResult _ => h.approved
  announced :=
    match event with
    | .announced custodians => some custodians
    | .accepted | .confirmed | .challengeResult _ => h.announced

def Remembered (h : PinHistory) : Prop :=
  ∀ list ∈ h.approved.head?,
    ∃ state, h.pin = some state ∧ state.confirmed = true ∧ state.pinned = list

structure Tracks (h : PinHistory) : Prop where
  /-- A list that is trusted without the user is empty. -/
  approved : ∀ state, h.pin = some state → state.confirmed = true →
    state.pinned = [] ∨ state.pinned ∈ h.approved
  announced : ∀ state, h.pin = some state →
    h.announced = some state.pinned ∨ ∃ list, state.pendingUpdate = some list ∧
      h.announced = some list
  pending : ∀ state, h.pin = some state → state.pendingUpdate ≠ some state.pinned
  remembered : h.Remembered

/-- Nothing gets lost in the event: a list is accepted while there is a pin or nothing was
announced, and not while a changed list waits although the server has returned to the
pinned one; and no challenge fails after the user has agreed to a list. -/
def NothingLost (h : PinHistory) : CustodianEvent → Prop
  | .accepted =>
      match h.pin with
      | some state => state.pendingUpdate = none ∨ h.announced ≠ some state.pinned
      | none => h.announced = none
  | .challengeResult passed => passed = true ∨ h.approved = []
  | .announced _ | .confirmed => True

variable {h : PinHistory}

theorem tracks_empty : Tracks {} where
  approved := by rintro state ⟨⟩
  announced := by rintro state ⟨⟩
  pending := by rintro state ⟨⟩
  remembered := by rintro list ⟨⟩

theorem Tracks.announce (ht : h.Tracks) (custodians : List String) :
    (h.step (.announced custodians)).Tracks := by
  cases hpin : h.pin with
  | none =>
      have hafter : (h.step (.announced custodians)).pin =
          some (.firstObservation custodians) := by
        simp only [step, pinAfter, hpin]
      refine ⟨?_, ?_, ?_, ?_⟩
      · rw [hafter]
        rintro _ ⟨⟩ hconfirmed
        exact .inl (List.isEmpty_iff.mp hconfirmed)
      · rw [hafter]
        rintro _ ⟨⟩
        exact .inl rfl
      · rw [hafter]
        rintro _ ⟨⟩ ⟨⟩
      · -- nothing has been agreed to without a pin
        intro list hlist
        obtain ⟨state, hstate, -⟩ := ht.remembered list hlist
        rw [hpin] at hstate
        cases hstate
  | some state =>
      by_cases hsame : state.pinned = custodians
      · have hafter : (h.step (.announced custodians)).pin = some state := by
          simp only [step, pinAfter, hpin, if_pos hsame]
        refine ⟨?_, ?_, ?_, ?_⟩
        · rw [hafter, ← hpin]
          exact ht.approved
        · rw [hafter]
          rintro _ ⟨⟩
          exact .inl (congrArg some hsame.symm)
        · rw [hafter, ← hpin]
          exact ht.pending
        · intro list hlist
          rw [hafter, ← hpin]
          exact ht.remembered list hlist
      · have hafter : (h.step (.announced custodians)).pin =
            some { state with pendingUpdate := some custodians } := by
          simp only [step, pinAfter, hpin, if_neg hsame]
        refine ⟨?_, ?_, ?_, ?_⟩
        · rw [hafter]
          rintro _ ⟨⟩ hconfirmed
          exact ht.approved state hpin hconfirmed
        · rw [hafter]
          rintro _ ⟨⟩
          exact .inr ⟨custodians, rfl, rfl⟩
        · rw [hafter]
          rintro _ ⟨⟩ hpending
          exact hsame (Option.some.inj hpending).symm
        · intro list hlist
          obtain ⟨state', hstate, hconfirmed, hpinned⟩ := ht.remembered list hlist
          rw [hpin] at hstate
          cases hstate
          exact ⟨_, hafter, hconfirmed, hpinned⟩

/-- Accepting is harmless exactly if it pins the list that was announced last. -/
theorem Tracks.accepted_iff (ht : h.Tracks) :
    (h.step .accepted).pin.map CustodianPinState.pinned = h.announced ↔
      h.NothingLost .accepted := by
  cases hpin : h.pin with
  | none => simp [step, pinAfter, NothingLost, hpin, eq_comm]
  | some state =>
      have hafter : (h.step .accepted).pin.map CustodianPinState.pinned =
          some (state.pendingUpdate.getD state.pinned) := by
        simp only [step, pinAfter, hpin, Option.map_some]
      rw [hafter]
      simp only [NothingLost, hpin]
      cases hpending : state.pendingUpdate with
      | none =>
          refine iff_of_true ?_ (.inl rfl)
          rcases ht.announced state hpin with hannounced | ⟨list, hlist, -⟩
          · exact hannounced.symm
          · rw [hpending] at hlist
            cases hlist
      | some waiting =>
          have hne := ht.pending state hpin
          rw [hpending] at hne
          rw [Option.getD_some]
          constructor
          · intro heq
            exact .inr (heq ▸ hne)
          · intro hlost
            have hother := hlost.resolve_left (by simp)
            rcases ht.announced state hpin with hannounced | ⟨list, hlist, hannounced⟩
            · exact absurd hannounced hother
            · rw [hpending] at hlist
              rw [hannounced, hlist]

theorem tracks_of_approved {state : CustodianPinState} {before : List (List String)}
    (hpin : h.pin = some state) (hconfirmed : state.confirmed = true)
    (happroved : h.approved = state.pinned :: before)
    (hannounced : h.announced = some state.pinned ∨ ∃ list, state.pendingUpdate = some list ∧
      h.announced = some list)
    (hpending : state.pendingUpdate ≠ some state.pinned) : h.Tracks := by
  refine ⟨?_, ?_, ?_, ?_⟩
  · rw [hpin, happroved]
    rintro _ ⟨⟩ -
    exact .inr List.mem_cons_self
  · rw [hpin]
    rintro _ ⟨⟩
    exact hannounced
  · rw [hpin]
    rintro _ ⟨⟩
    exact hpending
  · intro list hlist
    rw [happroved] at hlist
    cases hlist
    exact ⟨state, hpin, hconfirmed, rfl⟩

theorem Tracks.accept (ht : h.Tracks) (hlost : h.NothingLost .accepted) :
    (h.step .accepted).Tracks := by
  have hannounced := ht.accepted_iff.mpr hlost
  cases hpin : h.pin with
  | none =>
      have hafter : h.step .accepted = h := by
        simp only [step, pinAfter, hpin, Option.map_none, Option.toList_none, List.nil_append]
        rw [← hpin]
      rwa [hafter]
  | some state =>
      have hafter : (h.step .accepted).pin =
          some { pinned := state.pendingUpdate.getD state.pinned, confirmed := true } := by
        simp only [step, pinAfter, hpin, Option.map_some]
      have happroved : (h.step .accepted).approved =
          state.pendingUpdate.getD state.pinned :: h.approved := by
        simp only [step, pinAfter, hpin, Option.map_some, Option.toList_some,
          List.singleton_append]
      rw [hafter] at hannounced
      exact tracks_of_approved hafter rfl happroved (.inl hannounced.symm) nofun

theorem Tracks.confirm (ht : h.Tracks) : (h.step .confirmed).Tracks := by
  cases hpin : h.pin with
  | none =>
      have hafter : h.step .confirmed = h := by
        simp only [step, pinAfter, hpin, Option.map_none, Option.toList_none, List.nil_append]
        rw [← hpin]
      rwa [hafter]
  | some state =>
      have hafter : (h.step .confirmed).pin = some { state with confirmed := true } := by
        simp only [step, pinAfter, hpin, Option.map_some]
      have happroved : (h.step .confirmed).approved = state.pinned :: h.approved := by
        simp only [step, pinAfter, hpin, Option.map_some, Option.toList_some,
          List.singleton_append]
      exact tracks_of_approved hafter rfl happroved (ht.announced state hpin)
        (ht.pending state hpin)

theorem Tracks.challenge (ht : h.Tracks) {passed : Bool}
    (hlost : h.NothingLost (.challengeResult passed)) :
    (h.step (.challengeResult passed)).Tracks := by
  cases passed with
  | true => exact ht
  | false =>
      have happroved : h.approved = [] := hlost.resolve_left (by decide)
      refine ⟨nofun, nofun, nofun, ?_⟩
      intro list hlist
      simp [step, happroved] at hlist

theorem Tracks.step (ht : h.Tracks) {event : CustodianEvent} (hlost : h.NothingLost event) :
    (h.step event).Tracks := by
  cases event with
  | announced custodians => exact ht.announce custodians
  | accepted => exact ht.accept hlost
  | confirmed => exact ht.confirm
  | challengeResult passed => exact ht.challenge hlost

theorem Tracks.remembered_iff (ht : h.Tracks) {event : CustodianEvent}
    (hserver : event.isServerMessage = true) :
    (h.step event).Remembered ↔ h.NothingLost event := by
  cases event with
  | announced custodians => exact iff_of_true (ht.announce custodians).remembered trivial
  | accepted => cases hserver
  | confirmed => cases hserver
  | challengeResult passed =>
      constructor
      · intro hremembered
        cases passed with
        | true => exact .inl rfl
        | false =>
            right
            rw [← List.head?_eq_none_iff, Option.eq_none_iff_forall_not_mem]
            intro list hlist
            obtain ⟨state, hstate, -⟩ := hremembered list hlist
            cases hstate
      · exact fun hlost => (ht.challenge hlost).remembered

end PinHistory

/-! ## The lists of all channels -/

/-- A key manager, with the history of what was announced and agreed to for each
channel. -/
structure CustodianState where
  keyManager : KeyManager
  approved : UInt32 → List (List String) := fun _ => []
  announced : UInt32 → Option (List String) := fun _ => none

namespace CustodianState

def history (s : CustodianState) (c : UInt32) : PinHistory where
  pin := s.keyManager.pinnedCustodians c
  approved := s.approved c
  announced := s.announced c

/-- The key manager after an event of a channel. A key that did not pass a challenge is
discarded by `handle_proto_key_challenge_result`. -/
def keyManagerAfter (km : KeyManager) (c : UInt32) : CustodianEvent → KeyManager
  | .announced custodians => (km.updateCustodianPin c custodians).1
  | .accepted => km.acceptCustodianUpdate c
  | .confirmed => km.confirmCustodianList c
  | .challengeResult passed => if passed then km else km.removeChannel c

/-- The list that the user agrees to in an event: the waiting one, if a changed list is
accepted, and the pinned one otherwise. -/
def agreedTo (km : KeyManager) (c : UInt32) : CustodianEvent → Option (List String)
  | .accepted => (km.pinnedCustodians c).map fun pin => pin.pendingUpdate.getD pin.pinned
  | .confirmed => (km.pinnedCustodians c).map CustodianPinState.pinned
  | .announced _ | .challengeResult _ => none

def step (s : CustodianState) (event : UInt32 × CustodianEvent) : CustodianState where
  keyManager := keyManagerAfter s.keyManager event.1 event.2
  approved := Function.update s.approved event.1
    ((agreedTo s.keyManager event.1 event.2).toList ++ s.approved event.1)
  announced :=
    match event.2 with
    | .announced custodians => Function.update s.announced event.1 (some custodians)
    | .accepted | .confirmed | .challengeResult _ => s.announced

def start (km : KeyManager) : CustodianState where
  keyManager := { km with pinnedCustodians := fun _ => none }

theorem pinnedCustodians_keyManagerAfter (km : KeyManager) (c : UInt32)
    (event : CustodianEvent) :
    (keyManagerAfter km c event).pinnedCustodians =
      Function.update km.pinnedCustodians c
        (PinHistory.pinAfter (km.pinnedCustodians c) event) := by
  cases event with
  | announced custodians =>
      simp only [keyManagerAfter, KeyManager.updateCustodianPin, PinHistory.pinAfter]
      cases hpin : km.pinnedCustodians c with
      | none => rfl
      | some state =>
          dsimp only
          split
          · rw [← hpin, Function.update_eq_self]
          · rfl
  | accepted =>
      simp only [keyManagerAfter, KeyManager.acceptCustodianUpdate, PinHistory.pinAfter]
      cases hpin : km.pinnedCustodians c with
      | none => exact (Function.update_eq_self_iff.mpr hpin.symm).symm
      | some state => rfl
  | confirmed =>
      simp only [keyManagerAfter, KeyManager.confirmCustodianList, PinHistory.pinAfter]
      cases hpin : km.pinnedCustodians c with
      | none => exact (Function.update_eq_self_iff.mpr hpin.symm).symm
      | some state => rfl
  | challengeResult passed =>
      cases passed with
      | true => exact (Function.update_eq_self c km.pinnedCustodians).symm
      | false => rfl

/-- An event extends the history of its channel and no other one. -/
theorem history_step (s : CustodianState) (event : UInt32 × CustodianEvent) (d : UInt32) :
    (s.step event).history d =
      if d = event.1 then (s.history event.1).step event.2 else s.history d := by
  obtain ⟨c, event⟩ := event
  simp only [history, step, pinnedCustodians_keyManagerAfter]
  by_cases hchannel : d = c
  · subst hchannel
    simp only [PinHistory.step, Function.update_self, if_true]
    cases event with
    | announced custodians => simp [agreedTo]
    | accepted =>
        simp only [agreedTo, PinHistory.pinAfter, Option.map_map]
        rfl
    | confirmed =>
        simp only [agreedTo, PinHistory.pinAfter, Option.map_map]
        rfl
    | challengeResult passed => simp [agreedTo]
  · simp only [Function.update_of_ne hchannel, if_neg hchannel]
    cases event <;> simp [Function.update_of_ne hchannel]

theorem mem_pinned_of_isTrustedAuthority {km : KeyManager} {sender : String} {c : UInt32}
    {custodians : List String} (h : km.isTrustedAuthority sender c custodians = true)
    (hother : km.channelOriginators c ≠ some sender) :
    ∃ state, km.pinnedCustodians c = some state ∧ state.confirmed = true ∧
      sender ∈ state.pinned := by
  have horiginator : (km.channelOriginators c == some sender) = false :=
    beq_eq_false_iff_ne.mpr hother
  unfold KeyManager.isTrustedAuthority at h
  simp only [horiginator, Bool.or_false] at h
  split at h
  · cases h
  split at h
  next state hpin =>
    split at h
    · cases h
    next hconfirmed =>
      obtain ⟨custodian, hmem, heq⟩ := List.any_eq_true.mp h
      rw [eq_of_beq heq] at hmem
      exact ⟨state, hpin, by simpa using hconfirmed, hmem⟩
  · cases h

/-- An event respects the user: who is trusted without being the originator is on a list
that the user has agreed to, accepting pins the list that was announced last, and a
message of the server leaves the list that the user agreed to last in place. -/
structure RespectsUser (s : CustodianState) (event : UInt32 × CustodianEvent) : Prop where
  approved : ∀ d sender custodians,
    (s.step event).keyManager.isTrustedAuthority sender d custodians = true →
      (s.step event).keyManager.channelOriginators d ≠ some sender →
        ∃ list ∈ (s.step event).approved d, sender ∈ list
  accepted : event.2 = .accepted →
    ((s.step event).keyManager.pinnedCustodians event.1).map CustodianPinState.pinned =
      s.announced event.1
  remembered : event.2.isServerMessage = true → ((s.step event).history event.1).Remembered

/-- Nothing gets lost in the event for its channel. -/
def NothingLost (s : CustodianState) (event : UInt32 × CustodianEvent) : Prop :=
  (s.history event.1).NothingLost event.2

def Tracks (s : CustodianState) : Prop :=
  ∀ c, (s.history c).Tracks

theorem tracks_step {s : CustodianState} {event : UInt32 × CustodianEvent} (hs : s.Tracks)
    (hlost : s.NothingLost event) : (s.step event).Tracks := by
  intro d
  rw [history_step]
  split
  · exact (hs event.1).step hlost
  · exact hs d

theorem approved_of_tracks {s : CustodianState} (hs : s.Tracks) {d : UInt32} {sender : String}
    {custodians : List String}
    (htrusted : s.keyManager.isTrustedAuthority sender d custodians = true)
    (hother : s.keyManager.channelOriginators d ≠ some sender) :
    ∃ list ∈ s.approved d, sender ∈ list := by
  obtain ⟨state, hpin, hconfirmed, hmem⟩ := mem_pinned_of_isTrustedAuthority htrusted hother
  rcases (hs d).approved state hpin hconfirmed with hempty | happroved
  · rw [hempty] at hmem
    cases hmem
  · exact ⟨state.pinned, happroved, hmem⟩

/-- An event respects the user exactly if nothing gets lost in it. -/
theorem respectsUser_iff {s : CustodianState} {event : UInt32 × CustodianEvent}
    (hs : s.Tracks) : s.RespectsUser event ↔ s.NothingLost event := by
  have hhistory := history_step s event event.1
  rw [if_pos rfl] at hhistory
  constructor
  · intro h
    have haccepted := h.accepted
    have hremembered := h.remembered
    rw [hhistory] at hremembered
    unfold NothingLost
    obtain ⟨c, event⟩ := event
    cases event with
    | announced custodians => trivial
    | accepted =>
        have hpinned := congrArg (fun h => h.pin.map CustodianPinState.pinned) hhistory
        exact (hs c).accepted_iff.mp (hpinned.symm.trans (haccepted rfl))
    | confirmed => trivial
    | challengeResult passed => exact ((hs c).remembered_iff rfl).mp (hremembered rfl)
  · intro hlost
    refine ⟨fun d sender custodians => approved_of_tracks (tracks_step hs hlost), ?_, ?_⟩
    · intro haccept
      obtain ⟨c, event⟩ := event
      cases haccept
      have hpinned := (hs c).accepted_iff.mpr hlost
      rw [← hhistory] at hpinned
      exact hpinned
    · intro hserver
      rw [hhistory]
      exact ((hs event.1).remembered_iff hserver).mpr hlost

/-- A run of announcements, decisions and challenges respects the user exactly if nothing
gets lost in it. -/
theorem respectsUser_run_iff (km : KeyManager) (events : List (UInt32 × CustodianEvent)) :
    Along step RespectsUser (start km) events ↔ Along step NothingLost (start km) events := by
  have hstart : (start km).Tracks := fun c => PinHistory.tracks_empty
  have hruns : Along step (fun _ _ => True) (start km) events :=
    along_of_forall (fun _ _ => trivial) _ _
  refine along_iff_along (fun s event (hs : s.Tracks) _ => respectsUser_iff hs) ?_ hstart hruns
  exact fun s event hs _ hlost => tracks_step hs hlost

section Example

/-- The server replaces a confirmed list and takes the change back before the user accepts
it; the list that it has withdrawn is pinned. -/
theorem withdrawn_list_accepted :
    ¬∀ (km : KeyManager) (events : List (UInt32 × CustodianEvent)),
      Along step RespectsUser (start km) events := by
  intro h
  obtain ⟨-, -, -, -, haccepted, -⟩ := h {}
    [(7, .announced ["a"]), (7, .confirmed), (7, .announced ["b"]), (7, .announced ["a"]),
      (7, .accepted)]
  exact absurd (haccepted.accepted rfl) (by decide)

end Example

end CustodianState

end FancyMumble.Persistent
