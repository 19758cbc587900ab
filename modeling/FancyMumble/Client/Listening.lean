import FancyMumble.Lib.Runs
import Mathlib.Data.Finset.Erase
import Mathlib.Data.Finset.Lattice.Lemmas
import Mathlib.Data.Finset.SDiff

/-!
# Listened channels

The channels that the client reports as listened to, and what the server was asked for by the
messages that were sent.
-/

namespace FancyMumble.Client.Listening

open Lib.Runs

structure ChannelListen where
  add : List UInt32
  remove : List UInt32
deriving DecidableEq

/-- `SharedState`, with what the operations on listened channels use. Of the known channels
it has the permissions, where they are known. -/
structure SharedState where
  permanentlyListened : Finset UInt32 := ∅
  selectedChannel : Option UInt32 := none
  channels : UInt32 → Option (Option UInt32) := fun _ => none
  clientHandle : Bool := true

namespace SharedState

def selectChannel (state : SharedState) (channelId : UInt32) : SharedState :=
  { state with selectedChannel := some channelId }

def selectDmUser (state : SharedState) : SharedState := { state with selectedChannel := none }

/-- The locked part of `toggle_listen`: the state, whether the channel is listened to now, and
the message to send. -/
def toggle (state : SharedState) (channelId : UInt32) :
    Except String (SharedState × Bool × ChannelListen) :=
  let noListenPerm := ((state.channels channelId).bind id).any fun p => p &&& 0x800 = 0
  if channelId ∉ state.permanentlyListened ∧ noListenPerm then
    .error "You do not have permission to listen to this channel"
  else if channelId ∈ state.permanentlyListened then
    let state' := { state with permanentlyListened := state.permanentlyListened.erase channelId }
    let isSelected := state.selectedChannel = some channelId
    if isSelected then .ok (state', false, ⟨[], []⟩)
    else .ok (state', false, ⟨[], [channelId]⟩)
  else
    let state' := { state with permanentlyListened := insert channelId state.permanentlyListened }
    let isSelected := state.selectedChannel = some channelId
    if isSelected then .ok (state', true, ⟨[], []⟩)
    else .ok (state', true, ⟨[channelId], []⟩)

/-- `toggle_listen`, with the message that is sent. A message that cannot be sent is logged. -/
def toggleListen (state : SharedState) (channelId : UInt32) (queueOpen : Bool) :
    SharedState × Except String Bool × Option ChannelListen :=
  match state.toggle channelId with
  | .error e => (state, .error e, none)
  | .ok (state', isNowListened, message) =>
      if state.clientHandle ∧ (¬message.add.isEmpty ∨ ¬message.remove.isEmpty) ∧ queueOpen then
        (state', .ok isNowListened, some message)
      else (state', .ok isNowListened, none)

def handlePermissionDenied (state : SharedState) (channelId : Option UInt32) : SharedState :=
  match channelId with
  | some chId => { state with permanentlyListened := state.permanentlyListened.erase chId }
  | none => state

def listenedChannels (state : SharedState) : Finset UInt32 := state.permanentlyListened

end SharedState

/-! ## What the server was asked for -/

structure Request where
  message : ChannelListen
  denied : Bool := false

def askedFor (requests : List Request) : Finset UInt32 :=
  requests.foldl (fun listened r =>
    (if r.denied then listened else listened ∪ r.message.add.toFinset) \
      r.message.remove.toFinset) ∅

def deny (requests : List Request) (request : Option ℕ) : List Request :=
  match request with
  | some i => requests.modify i fun r => { r with denied := true }
  | none => requests

structure Listener where
  state : SharedState := {}
  requests : List Request := []

/-- What happens. A denial names a channel or none; what it denies is a request to listen, or
another action. -/
inductive Event where
  | toggleListen (channelId : UInt32) (queueOpen : Bool)
  | selectChannel (channelId : UInt32)
  | selectDmUser
  | channels (channels : UInt32 → Option (Option UInt32))
  | permissionDenied (channelId : Option UInt32) (request : Option ℕ)

def Listener.step (s : Listener) : Event → Listener
  | .toggleListen channelId queueOpen =>
      let (state, _, message) := s.state.toggleListen channelId queueOpen
      { state, requests := s.requests ++ message.toList.map fun message => { message } }
  | .selectChannel channelId => { s with state := s.state.selectChannel channelId }
  | .selectDmUser => { s with state := s.state.selectDmUser }
  | .channels channels => { s with state.channels := channels }
  | .permissionDenied channelId request =>
      { state := s.state.handlePermissionDenied channelId, requests := deny s.requests request }

/-- The client reports what the server was asked for. -/
def Agrees (s : Listener) : Prop := s.state.listenedChannels = askedFor s.requests

/-- A toggle is refused, or its message is sent: there is a connection, the channel is not the
selected one, and sending succeeds. Of the channels that were asked for, a denial names exactly
the one whose request it denies. -/
def KeepsAgreement (s : Listener) : Event → Prop
  | .toggleListen channelId queueOpen =>
      (channelId ∉ s.state.permanentlyListened ∧
        ∃ p, s.state.channels channelId = some (some p) ∧ p &&& 0x800 = 0) ∨
      s.state.clientHandle = true ∧ s.state.selectedChannel ≠ some channelId ∧ queueOpen = true
  | .permissionDenied channelId request =>
      ∀ c ∈ askedFor s.requests,
        channelId = some c ↔ c ∉ askedFor (deny s.requests request)
  | _ => True

/-! ## Requests -/

theorem askedFor_append_singleton (requests : List Request) (message : ChannelListen) :
    askedFor (requests ++ [⟨message, false⟩]) =
      (askedFor requests ∪ message.add.toFinset) \ message.remove.toFinset := by
  unfold askedFor
  rw [List.foldl_append]
  rfl

theorem askedFor_listen (requests : List Request) (c : UInt32) :
    askedFor (requests ++ [⟨⟨[c], []⟩, false⟩]) = insert c (askedFor requests) := by
  rw [askedFor_append_singleton]
  ext d
  simp

theorem askedFor_unlisten (requests : List Request) (c : UInt32) :
    askedFor (requests ++ [⟨⟨[], [c]⟩, false⟩]) = (askedFor requests).erase c := by
  rw [askedFor_append_singleton]
  ext d
  simp [and_comm]

/-- A denial takes channels out and puts none in. -/
theorem askedFor_deny_subset (requests : List Request) (request : Option ℕ) :
    askedFor (deny requests request) ⊆ askedFor requests := by
  cases request with
  | none => exact Finset.Subset.refl _
  | some i =>
      -- the two folds start from a set and a smaller one
      suffices h : ∀ (i : ℕ) (less more : Finset UInt32), less ⊆ more →
          (requests.modify i fun r => { r with denied := true }).foldl (fun listened r =>
            (if r.denied then listened else listened ∪ r.message.add.toFinset) \
              r.message.remove.toFinset) less ⊆
          requests.foldl (fun listened r =>
            (if r.denied then listened else listened ∪ r.message.add.toFinset) \
              r.message.remove.toFinset) more from h i ∅ ∅ (Finset.Subset.refl _)
      induction requests with
      | nil => exact fun i less more hsub => by rwa [List.modify_nil]
      | cons r requests ih =>
          have hsame (less more : Finset UInt32) (hsub : less ⊆ more) :
              (if r.denied then less else less ∪ r.message.add.toFinset) ⊆
                if r.denied then more else more ∪ r.message.add.toFinset := by
            split
            · exact hsub
            · exact Finset.union_subset_union_left hsub
          intro i less more hsub
          cases i with
          | zero =>
              have hrest := ih requests.length
              rw [List.modify_eq_self (le_refl _)] at hrest
              refine hrest _ _ (Finset.sdiff_subset_sdiff (fun c hc => ?_) (le_refl _))
              split
              · exact hsub hc
              · exact Finset.mem_union_left _ (hsub hc)
          | succ i =>
              rw [List.modify_succ_cons]
              exact ih i _ _ (Finset.sdiff_subset_sdiff (hsame less more hsub) (le_refl _))

/-! ## Toggles -/

def toggled (listened : Finset UInt32) (c : UInt32) : Finset UInt32 :=
  if c ∈ listened then listened.erase c else insert c listened

theorem toggled_ne (listened : Finset UInt32) (c : UInt32) : toggled listened c ≠ listened := by
  unfold toggled
  split
  next hc => exact fun heq => Finset.notMem_erase c listened (heq.symm ▸ hc)
  next hc => exact fun heq => hc (heq ▸ Finset.mem_insert_self c listened)

section Toggle

variable {s : Listener} {c : UInt32} {queueOpen : Bool}

theorem step_toggleListen_refused (hc : c ∉ s.state.permanentlyListened)
    (hperm : ∃ p, s.state.channels c = some (some p) ∧ p &&& 0x800 = 0) :
    s.step (.toggleListen c queueOpen) = s := by
  obtain ⟨p, hp, hzero⟩ := hperm
  have hrefused : s.state.toggle c =
      .error "You do not have permission to listen to this channel" := by
    unfold SharedState.toggle
    rw [hp]
    exact if_pos ⟨hc, decide_eq_true hzero⟩
  simp only [Listener.step, SharedState.toggleListen, hrefused, Option.toList_none, List.map_nil,
    List.append_nil]

theorem toggle_eq {state : SharedState} (hallowed : ¬(c ∉ state.permanentlyListened ∧
      ∃ p, state.channels c = some (some p) ∧ p &&& 0x800 = 0)) :
    state.toggle c = .ok
      ({ state with permanentlyListened := toggled state.permanentlyListened c },
        decide (c ∉ state.permanentlyListened),
        if state.selectedChannel = some c then ⟨[], []⟩
        else if c ∈ state.permanentlyListened then ⟨[], [c]⟩
        else ⟨[c], []⟩) := by
  have hperm : ¬(c ∉ state.permanentlyListened ∧
      ((state.channels c).bind id).any (fun p => p &&& 0x800 = 0) = true) := by
    rintro ⟨hc, hany⟩
    obtain ⟨p, hp, hzero⟩ := (Option.any_eq_true _ _).mp hany
    obtain ⟨permissions, hchannel, rfl⟩ := Option.bind_eq_some_iff.mp hp
    exact hallowed ⟨hc, p, hchannel, of_decide_eq_true hzero⟩
  unfold SharedState.toggle toggled
  rw [if_neg hperm]
  by_cases hc : c ∈ state.permanentlyListened
  · rw [if_pos hc, if_pos hc, if_pos hc, decide_eq_false (not_not_intro hc)]
    by_cases hselected : state.selectedChannel = some c
    · simp only [if_pos hselected]
    · simp only [if_neg hselected]
  · rw [if_neg hc, if_neg hc, if_neg hc, decide_eq_true hc]
    by_cases hselected : state.selectedChannel = some c
    · simp only [if_pos hselected]
    · simp only [if_neg hselected]

variable (queueOpen) in
theorem step_toggleListen (hallowed : ¬(c ∉ s.state.permanentlyListened ∧
      ∃ p, s.state.channels c = some (some p) ∧ p &&& 0x800 = 0)) :
    (s.step (.toggleListen c queueOpen)).state.permanentlyListened =
        toggled s.state.permanentlyListened c ∧
      askedFor (s.step (.toggleListen c queueOpen)).requests =
        if s.state.clientHandle = true ∧ s.state.selectedChannel ≠ some c ∧ queueOpen = true then
          if c ∈ s.state.permanentlyListened then (askedFor s.requests).erase c
          else insert c (askedFor s.requests)
        else askedFor s.requests := by
  simp only [Listener.step, SharedState.toggleListen, toggle_eq hallowed]
  by_cases hselected : s.state.selectedChannel = some c
  · simp [hselected]
  · by_cases hsent : s.state.clientHandle = true ∧ queueOpen = true
    · by_cases hc : c ∈ s.state.permanentlyListened
      · simp [hselected, hsent, hc, askedFor_unlisten]
      · simp [hselected, hsent, hc, askedFor_listen]
    · have hlost (P : Prop) : ¬(s.state.clientHandle = true ∧ P ∧ queueOpen = true) :=
        fun hall => hsent ⟨hall.1, hall.2.2⟩
      simp [hlost]

end Toggle

/-! ## Runs -/

theorem agrees_step_iff {s : Listener} (h : Agrees s) (e : Event) :
    Agrees (s.step e) ↔ KeepsAgreement s e := by
  cases e with
  | toggleListen c queueOpen =>
      by_cases hrefused : c ∉ s.state.permanentlyListened ∧
          ∃ p, s.state.channels c = some (some p) ∧ p &&& 0x800 = 0
      · rw [step_toggleListen_refused hrefused.1 hrefused.2]
        exact iff_of_true h (.inl hrefused)
      · obtain ⟨hlistened, hasked⟩ := step_toggleListen queueOpen hrefused
        unfold Agrees SharedState.listenedChannels at h ⊢
        rw [hlistened, hasked, ← h]
        refine Iff.trans ?_ (or_iff_right hrefused).symm
        split
        next hsent => exact iff_of_true rfl hsent
        next hsent => exact iff_of_false (toggled_ne _ _) hsent
  | selectChannel c => exact iff_of_true h trivial
  | selectDmUser => exact iff_of_true h trivial
  | channels channels => exact iff_of_true h trivial
  | permissionDenied channelId request =>
      have hsub := askedFor_deny_subset s.requests request
      have hmem (c : UInt32) :
          c ∈ (s.step (.permissionDenied channelId request)).state.permanentlyListened ↔
            c ∈ askedFor s.requests ∧ channelId ≠ some c := by
        rw [← h]
        cases channelId with
        | none => exact (and_iff_left nofun).symm
        | some d =>
            have hne : some d ≠ some c ↔ c ≠ d := Option.some_inj.not.trans ne_comm
            rw [hne, and_comm]
            exact Finset.mem_erase
      unfold Agrees SharedState.listenedChannels
      rw [Finset.ext_iff]
      refine forall_congr' fun c => ?_
      rw [hmem c]
      constructor
      · intro hiff hc
        exact ⟨fun hname hstays => (hiff.mpr hstays).2 hname,
          fun hgone => by_contra fun hname => hgone (hiff.mp ⟨hc, hname⟩)⟩
      · intro hnames
        exact ⟨fun hboth => by_contra fun hgone => hboth.2 ((hnames hboth.1).mpr hgone),
          fun hstays => ⟨hsub hstays, fun hname => (hnames (hsub hstays)).mp hname hstays⟩⟩

/-- Whatever happens on a new connection, the client reports in every state what the server was
asked for exactly if every event keeps the agreement. -/
theorem agrees_run_iff (state : SharedState) (events : List Event) :
    Along Listener.step (fun s e => Agrees (s.step e))
        { state := { state with permanentlyListened := ∅ } } events ↔
      Along Listener.step KeepsAgreement
        { state := { state with permanentlyListened := ∅ } } events :=
  along_iff_of_invariant (fun s e (hs : Agrees s) => agrees_step_iff hs e)
    (fun _ e hs hkeeps => (agrees_step_iff hs e).mpr hkeeps) rfl

/-- A channel is selected, toggled on and left; the client reports it, but the server was never
asked. -/
theorem selected_channel_not_asked_for :
    ¬∀ (state : SharedState) (events : List Event),
      Along Listener.step (fun s e => Agrees (s.step e))
        { state := { state with permanentlyListened := ∅ } } events := by
  intro h
  have hruns := h {} [.selectChannel 1, .toggleListen 1 true, .selectChannel 2]
  have hagrees : ({1} : Finset UInt32) = ∅ := hruns.2.2.1
  exact absurd hagrees (by decide)

end FancyMumble.Client.Listening
