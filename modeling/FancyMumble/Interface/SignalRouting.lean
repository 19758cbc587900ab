import FancyMumble.Interface.SignalTargets

/-!
# Routing of signals

Every answer and every candidate reaches the connection whose offer it replies to, as long as
the dispatcher cannot take it for one of another connection.
-/

namespace FancyMumble.Interface.PeerConnections

open Lib.Runs

variable {V S A I : Type}

/-! ## What signals should do -/

/-- Every connection has what has come for it: the answer, and the candidates in the order of
their arrival once it has a remote description. -/
structure Routed (c : Client V S A I) : Prop where
  answers : ∀ q pc, c.pcs q = some pc →
    pc.remoteDescription.toList ++ pc.settingRemote.map Prod.snd = c.answersFor q
  isOpen : ∀ q pc ice, c.pcs q = some pc → c.pending q = some ice →
    pc.iceCandidates ++ ice = c.candidatesFor q ∧ (pc.remoteDescription ≠ none → ice = [])
  isClosed : ∀ q pc, c.pcs q = some pc → c.pending q = none →
    pc.remoteDescription ≠ none → pc.iceCandidates = c.candidatesFor q
  early : ∀ q pc, c.pcs q = some pc → pc.remoteDescription = none → pc.iceCandidates = []

def Event.signalOf : Event V S A I → Option V
  | .stop serverId _ => some serverId
  | .sdpAnswer serverId .. => some serverId
  | .iceCandidate serverId .. => some serverId
  | _ => none

section

variable [DecidableEq V] [DecidableEq S]

/-- A signal does not touch the connections of other servers. -/
def Isolated (c : Client V S A I) (event : Event V S A I) : Prop :=
  ∀ serverId, event.signalOf = some serverId → ∀ q other, c.serverOf q = some other →
    other ≠ serverId → (step c event).pcs q = c.pcs q ∧ (step c event).pending q = c.pending q

/-- A signal reaches the connection that it is for, and no other one. -/
def Reaches (c : Client V S A I) (event : Event V S A I) : Prop :=
  Routed (step c event) ∧ Isolated c event

end

/-- What the servers do: a signal names the session of the broadcaster whose stream the offer
of the connection was for, on the server that the offer was sent on, and an offer is answered
once. -/
def Legit (c : Client V S A I) : Event V S A I → Prop
  | .sdpAnswer serverId senderSession _ q =>
      (∃ session, senderSession = some session ∧ c.offered q = some (serverId, session)) ∧
        c.answersFor q = []
  | .iceCandidate serverId senderSession _ q =>
      ∃ session, senderSession = some session ∧ c.offered q = some (serverId, session)
  | _ => True

/-- The page of the chat is shown when a signal comes for an open connection, and no connection
that the dispatcher asks first could take the signal: none of another connection expects an
answer, none of another connection takes candidates, and the broadcaster who stops is watched on
the same server. -/
def Careful [DecidableEq S] (c : Client V S A I) : Event V S A I → Prop
  | .sdpAnswer _ senderSession _ q =>
      (c.isOpen q = true → c.listening = true) ∧
        ∀ session, senderSession = some session → c.listening = true →
          c.viewerPc session ≠ some q → c.haveLocalOffer (c.viewerPc session) = false ∧
            (c.broadcasterPc ≠ some q → c.haveLocalOffer c.broadcasterPc = false ∧
              (c.previewPc ≠ some q → c.haveLocalOffer c.previewPc = false))
  | .iceCandidate _ senderSession payload q =>
      payload.isSome → (c.isOpen q = true → c.listening = true) ∧
        ∀ session, senderSession = some session → c.listening = true →
          c.broadcasterPc ≠ some q → c.broadcasterPc = none ∧
            (c.viewerPc session ≠ some q → c.viewerPc session = none ∧
              (c.previewPc ≠ some q → c.previewPc = none))
  | .stop serverId senderSession =>
      ∀ session q, senderSession = some session → c.listening = true →
        c.viewerPc session = some q → ∀ other, c.serverOf q = some other → other = serverId
  | _ => True

theorem Sound.routed {c : Client V S A I} (h : Sound c) : Routed c where
  answers q pc hpc := (h.lines q pc hpc).answers_eq
  isOpen q pc ice hpc hice :=
    ⟨((h.lines q pc hpc).isOpen ice hice).1, ((h.lines q pc hpc).isOpen ice hice).2.1⟩
  isClosed q pc hpc hnone := ((h.lines q pc hpc).isClosed hnone).2
  early q pc hpc := (h.lines q pc hpc).early

/-! ## Which signals reach their connection -/

namespace Sound

variable {c : Client V S A I} {q : ℕ}

/-- Nothing but its own answer can be given to a connection. -/
theorem target_of_routed_answer (h : Sound c) {target : Option (Holder S)} {sdp : A}
    (htarget : ∀ k, target = some k → ∃ p, c.held k = some p)
    (hrouted : Routed ((target.elim c fun k =>
      c.handleServerAnswer (c.held k) k sdp).noteAnswer q sdp)) : target = c.place q := by
  cases target with
  | none =>
      cases hplace : c.place q with
      | none => rfl
      | some k =>
          have hopen : c.isOpen q = true := Client.isOpen_iff.mpr ⟨k, hplace⟩
          obtain ⟨ice, hslot⟩ := Client.slot_of_held (h.place_eq_some_iff.mp hplace)
          obtain ⟨pc, hpc, -, -⟩ := h.inSlot hslot
          have hgiven : (c.noteAnswer q sdp).pcs q = some pc := by
            rw [Client.pcs_noteAnswer]
            exact hpc
          have hnoted := hrouted.answers q pc hgiven
          rw [Option.elim_none, Client.answersFor_noteAnswer hopen,
            (h.lines q pc hpc).answers_eq] at hnoted
          exact absurd hnoted (by simp)
  | some k =>
      obtain ⟨p, hheld⟩ := htarget k rfl
      obtain ⟨ice, hslot⟩ := Client.slot_of_held hheld
      obtain ⟨pc, hpc, -, -⟩ := h.inSlot hslot
      by_cases hp : p = q
      · rw [← hp, h.place_eq_some_iff.mpr hheld]
      · rw [Option.elim_some, hheld] at hrouted
        have hgiven : ((c.handleServerAnswer (some p) k sdp).noteAnswer q sdp).pcs p =
            some { pc with settingRemote := pc.settingRemote ++ [(k, sdp)] } := by
          rw [Client.pcs_noteAnswer, Client.handleServerAnswer, Client.pcs_modify_self, hpc]
          rfl
        have hnoted := hrouted.answers p _ hgiven
        rw [Client.answersFor_noteAnswer_of_ne hp, Client.answersFor_handleServerAnswer,
          List.map_append, ← List.append_assoc, (h.lines p pc hpc).answers_eq] at hnoted
        exact absurd hnoted (by simp)

variable [DecidableEq S]

/-- No candidate but its own can be given to a connection. -/
theorem target_of_routed_candidate (h : Sound c) {target : Option (Holder S)} {candidate : I}
    (htarget : ∀ k, target = some k → ∃ p, c.held k = some p)
    (hrouted : Routed ((target.elim c fun k =>
      c.pushSlot k candidate).noteCandidate q candidate)) : target = c.place q := by
  cases target with
  | none =>
      cases hplace : c.place q with
      | none => rfl
      | some k =>
          have hopen : c.isOpen q = true := Client.isOpen_iff.mpr ⟨k, hplace⟩
          obtain ⟨ice, hslot⟩ := Client.slot_of_held (h.place_eq_some_iff.mp hplace)
          obtain ⟨pc, hpc, -, hpending⟩ := h.inSlot hslot
          have hgiven : (c.noteCandidate q candidate).pcs q = some pc := by
            rw [Client.pcs_noteCandidate]
            exact hpc
          have hheld : (c.noteCandidate q candidate).pending q = some ice := by
            rw [Client.pending_noteCandidate]
            exact hpending
          have hnoted := (hrouted.isOpen q pc ice hgiven hheld).1
          rw [Option.elim_none, Client.candidatesFor_noteCandidate hopen,
            ((h.lines q pc hpc).isOpen ice hpending).1] at hnoted
          exact absurd hnoted (by simp)
  | some k =>
      obtain ⟨p, hheld⟩ := htarget k rfl
      by_cases hp : p = q
      · rw [← hp, h.place_eq_some_iff.mpr hheld]
      · have hpushed := h.pushed hheld candidate
        have hheld' : ((c.pushSlot k candidate).record p (c.offered p) (c.answersFor p)
            (c.candidatesFor p ++ [candidate])).held k = some p :=
          (c.held_pushSlot k k candidate).trans hheld
        obtain ⟨ice, hslot⟩ := Client.slot_of_held hheld'
        obtain ⟨pc, hpc, -, hpending⟩ := hpushed.inSlot hslot
        have hgiven : ((c.pushSlot k candidate).noteCandidate q candidate).pcs p = some pc := by
          rw [Client.pcs_noteCandidate]
          exact hpc
        have hheld : ((c.pushSlot k candidate).noteCandidate q candidate).pending p =
            some ice := by
          rw [Client.pending_noteCandidate]
          exact hpending
        rw [Option.elim_some] at hrouted
        have hnoted := (hrouted.isOpen p pc ice hgiven hheld).1
        rw [((hpushed.lines p pc hpc).isOpen ice hpending).1,
          Client.candidatesFor_noteCandidate_of_ne hp, Client.candidatesFor_pushSlot] at hnoted
        exact absurd hnoted (by simp [Client.record])

/-- The condition on answers says that the answer is given to its connection, if that is open, and
to none otherwise. -/
theorem careful_answer_iff (h : Sound c) {v : V} {session : S} {sdp : A}
    (hoffered : c.offered q = some (v, session)) (hanswers : c.answersFor q = []) :
    Careful c (.sdpAnswer v (some session) sdp q) ↔
      (if c.listening then c.answerTarget session else none) = c.place q := by
  have hsent : c.offered q ≠ none := by
    rw [hoffered]
    nofun
  unfold Careful
  cases hplace : c.place q with
  | none =>
      have hnot : ¬c.isOpen q = true := by
        rw [Client.isOpen_iff, hplace]
        nofun
      have hviewer : c.viewerPc session ≠ some q :=
        c.held_viewerPcs session ▸ h.held_ne_of_closed hplace _
      have hbroadcaster : c.broadcasterPc ≠ some q :=
        c.held_broadcasterPc ▸ h.held_ne_of_closed hplace _
      have hpreview : c.previewPc ≠ some q := c.held_previewPc ▸ h.held_ne_of_closed hplace _
      cases c.listening with
      | false => simp [hnot]
      | true => simp [hnot, hviewer, hbroadcaster, hpreview, Client.answerTarget_eq_none]
  | some k =>
      have hopen : c.isOpen q = true := Client.isOpen_iff.mpr ⟨k, hplace⟩
      have hexpects := h.haveLocalOffer_of_unanswered hplace hsent hanswers
      have hheld := h.place_eq_some_iff.mp hplace
      cases k with
      | viewerPcs session' =>
          cases h.session_of_place hplace hoffered
          rw [Client.held_viewerPcs] at hexpects hheld
          cases c.listening with
          | false => simp [hopen]
          | true => simp [hheld, Client.answerTarget_viewerPcs hexpects]
      | broadcasterPc =>
          have hviewer : c.viewerPc session ≠ some q :=
            c.held_viewerPcs session ▸ h.held_ne hplace nofun
          rw [Client.held_broadcasterPc] at hexpects hheld
          cases c.listening with
          | false => simp [hopen]
          | true => simp [hviewer, hheld, Client.answerTarget_broadcasterPc hexpects]
      | previewPc =>
          have hviewer : c.viewerPc session ≠ some q :=
            c.held_viewerPcs session ▸ h.held_ne hplace nofun
          have hbroadcaster : c.broadcasterPc ≠ some q :=
            c.held_broadcasterPc ▸ h.held_ne hplace nofun
          rw [Client.held_previewPc] at hexpects hheld
          cases c.listening with
          | false => simp [hopen]
          | true =>
              simp [hviewer, hbroadcaster, hheld, Client.answerTarget_previewPc hexpects]

/-- The condition on candidates says that the candidate is given to its connection, if that is
open, and to none otherwise. -/
theorem careful_candidate_iff (h : Sound c) {v : V} {session : S} {candidate : I}
    (hoffered : c.offered q = some (v, session)) :
    Careful c (.iceCandidate v (some session) (some candidate) q) ↔
      (if c.listening then c.candidateTarget session else none) = c.place q := by
  unfold Careful
  cases hplace : c.place q with
  | none =>
      have hnot : ¬c.isOpen q = true := by
        rw [Client.isOpen_iff, hplace]
        nofun
      have hviewer : c.viewerPc session ≠ some q :=
        c.held_viewerPcs session ▸ h.held_ne_of_closed hplace _
      have hbroadcaster : c.broadcasterPc ≠ some q :=
        c.held_broadcasterPc ▸ h.held_ne_of_closed hplace _
      have hpreview : c.previewPc ≠ some q := c.held_previewPc ▸ h.held_ne_of_closed hplace _
      cases c.listening with
      | false => simp [hnot]
      | true => simp [hnot, hviewer, hbroadcaster, hpreview, Client.candidateTarget_eq_none]
  | some k =>
      have hopen : c.isOpen q = true := Client.isOpen_iff.mpr ⟨k, hplace⟩
      have hheld := h.place_eq_some_iff.mp hplace
      cases k with
      | viewerPcs session' =>
          cases h.session_of_place hplace hoffered
          have hbroadcaster : c.broadcasterPc ≠ some q :=
            c.held_broadcasterPc ▸ h.held_ne hplace nofun
          rw [Client.held_viewerPcs] at hheld
          cases c.listening with
          | false => simp [hopen]
          | true => simp [hheld, hbroadcaster, Client.candidateTarget_viewerPcs hheld]
      | broadcasterPc =>
          rw [Client.held_broadcasterPc] at hheld
          cases c.listening with
          | false => simp [hopen]
          | true => simp [hheld, Client.candidateTarget_broadcasterPc hheld]
      | previewPc =>
          have hviewer : c.viewerPc session ≠ some q :=
            c.held_viewerPcs session ▸ h.held_ne hplace nofun
          have hbroadcaster : c.broadcasterPc ≠ some q :=
            c.held_broadcasterPc ▸ h.held_ne hplace nofun
          rw [Client.held_previewPc] at hheld
          cases c.listening with
          | false => simp [hopen]
          | true =>
              simp [hviewer, hbroadcaster, hheld, Client.candidateTarget_previewPc hheld]

end Sound

/-! ## What a signal leaves alone -/

namespace Client

variable {c : Client V S A I} {p q : ℕ} {k : Holder S}

theorem ne_of_serverOf {v other : V} {session : S} (hoffered : c.offered q = some (v, session))
    (hother : c.serverOf p = some other) (hne : other ≠ v) : p ≠ q := by
  rintro rfl
  unfold serverOf at hother
  rw [hoffered] at hother
  exact hne (Option.some.inj hother).symm

theorem answer_frame (h : p ≠ q) (c : Client V S A I) (k : Holder S) (sdp : A) :
    ((c.handleServerAnswer (some q) k sdp).noteAnswer q sdp).pcs p = c.pcs p ∧
      ((c.handleServerAnswer (some q) k sdp).noteAnswer q sdp).pending p = c.pending p := by
  constructor
  · rw [pcs_noteAnswer, handleServerAnswer, pcs_modify_of_ne c h]
  · rw [pending_noteAnswer, pending_handleServerAnswer]

variable [DecidableEq S]

theorem candidate_frame (hheld : c.held k = some q) (h : p ≠ q) (candidate : I) :
    ((c.pushSlot k candidate).noteCandidate q candidate).pcs p = c.pcs p ∧
      ((c.pushSlot k candidate).noteCandidate q candidate).pending p = c.pending p := by
  obtain ⟨ice, hslot⟩ := slot_of_held hheld
  rw [pcs_noteCandidate, pending_noteCandidate]
  unfold pushSlot
  rw [hslot]
  dsimp only
  split
  · have hpending := c.pending_modify q fun pc => pc.holder_addIceCandidates [candidate]
    exact ⟨pcs_modify_of_ne c h _, congrFun hpending p⟩
  · refine ⟨congrFun (pcs_setSlot ..) p, pending_setSlot_of_ne ?_ ?_⟩
    · intro entry hentry
      cases hslot.symm.trans hentry
      exact h.symm
    · rintro entry ⟨⟩
      exact h.symm

theorem close_frame (h : c.held k ≠ some p) :
    (c.closeSlot k).pcs p = c.pcs p ∧ (c.closeSlot k).pending p = c.pending p := by
  unfold closeSlot
  cases hslot : c.slot k with
  | none =>
      refine ⟨congrFun (pcs_setSlot ..) p, pending_setSlot_of_ne ?_ nofun⟩
      rw [hslot]
      nofun
  | some entry =>
      have hne : p ≠ entry.1 := by
        rintro rfl
        rw [held, hslot] at h
        exact h rfl
      dsimp only
      rw [pcs_setSlot, pending_setSlot_of_ne]
      · have hpending := c.pending_modify entry.1 (f := .close) fun _ => rfl
        exact ⟨pcs_modify_of_ne c hne _, congrFun hpending p⟩
      · rw [slot_modify, hslot]
        rintro entry' ⟨⟩
        exact hne.symm
      · nofun

end Client

namespace Sound

variable [DecidableEq V] [DecidableEq S] {c : Client V S A I}

theorem step_of_signalOf (h : Sound c) {event : Event V S A I} (hevent : event.signalOf = none) :
    Sound (step c event) := by
  cases event with
  | switchServer v => exact h.congr rfl (fun _ => rfl) rfl rfl rfl rfl
  | setActiveServerId v => exact h.congr rfl (fun _ => rfl) rfl rfl rfl rfl
  | setOwnSession v session => exact h.congr rfl (fun _ => rfl) rfl rfl rfl rfl
  | setListening listening => exact h.congr rfl (fun _ => rfl) rfl rfl rfl rfl
  | connectBroadcasterToServer =>
      rw [step, Client.connectBroadcasterToServer_eq]
      refine (h.closeSlot .broadcasterPc).openSlot ?_ none c.activeServerId nofun
      rw [Client.slot_closeSlot, if_pos rfl]
  | stopBroadcasting =>
      rw [step, Client.stopBroadcasting_eq]
      exact h.closeSlot .broadcasterPc
  | startWatching broadcasterSession => exact h.startWatching broadcasterSession
  | closeViewer session =>
      rw [step, Client.closeViewer_eq]
      exact h.closeSlot (.viewerPcs session)
  | requestThumbnail broadcasterSession =>
      rw [step, Client.requestThumbnail_eq]
      refine (h.closeSlot .previewPc).openSlot ?_ (some broadcasterSession) none nofun
      rw [Client.slot_closeSlot, if_pos rfl]
  | closePreview =>
      rw [step, Client.closePreview_eq]
      exact h.closeSlot .previewPc
  | offerCreated q => exact h.offerCreated q
  | localDescriptionSet q => exact h.localDescriptionSet q
  | remoteDescriptionSet q => exact h.remoteDescriptionSet q
  | stop serverId senderSession => cases hevent
  | sdpAnswer serverId senderSession payload q => cases hevent
  | iceCandidate serverId senderSession payload q => cases hevent

theorem answer_of_target (h : Sound c) {v : V} {session : S} {sdp : A} {q : ℕ}
    (hoffered : c.offered q = some (v, session)) (hanswers : c.answersFor q = [])
    (htarget : (if c.listening then c.answerTarget session else none) = c.place q) :
    Sound (step c (.sdpAnswer v (some session) sdp q)) ∧
      Isolated c (.sdpAnswer v (some session) sdp q) := by
  unfold Isolated
  rw [step_sdpAnswer, htarget]
  cases hplace : c.place q with
  | none =>
      have hclosed : ¬c.isOpen q = true := by
        rw [Client.isOpen_iff, hplace]
        nofun
      rw [Option.elim_none, Client.noteAnswer, if_neg hclosed]
      exact ⟨h, fun _ _ _ _ _ _ => ⟨rfl, rfl⟩⟩
  | some k =>
      have hsent : c.offered q ≠ none := by
        rw [hoffered]
        exact Option.some_ne_none _
      refine ⟨h.answered hplace hsent hanswers sdp, ?_⟩
      rintro serverId ⟨⟩ p other hother hne
      rw [Option.elim_some, h.place_eq_some_iff.mp hplace]
      exact Client.answer_frame (Client.ne_of_serverOf hoffered hother hne) c k sdp

theorem candidate_of_target (h : Sound c) {v : V} {session : S} {candidate : I} {q : ℕ}
    (hoffered : c.offered q = some (v, session))
    (htarget : (if c.listening then c.candidateTarget session else none) = c.place q) :
    Sound (step c (.iceCandidate v (some session) (some candidate) q)) ∧
      Isolated c (.iceCandidate v (some session) (some candidate) q) := by
  unfold Isolated
  rw [step_iceCandidate, htarget]
  cases hplace : c.place q with
  | none =>
      have hclosed : ¬c.isOpen q = true := by
        rw [Client.isOpen_iff, hplace]
        nofun
      rw [Option.elim_none, Client.noteCandidate, if_neg hclosed]
      exact ⟨h, fun _ _ _ _ _ _ => ⟨rfl, rfl⟩⟩
  | some k =>
      refine ⟨h.candidateAdded hplace candidate, ?_⟩
      rintro serverId ⟨⟩ p other hother hne
      exact Client.candidate_frame (h.place_eq_some_iff.mp hplace)
        (Client.ne_of_serverOf hoffered hother hne) candidate

theorem stop (h : Sound c) (v : V) (senderSession : Option S) :
    Sound (step c (.stop v senderSession)) := by
  show Sound (c.handle senderSession c.closeViewer)
  cases senderSession with
  | none =>
      rw [Client.handle_none]
      exact h
  | some session =>
      rw [Client.handle_some, Client.closeViewer_eq]
      split
      · exact h.closeSlot (.viewerPcs session)
      · exact h

theorem isolated_stop_iff (h : Sound c) {v : V} {senderSession : Option S} :
    Isolated c (.stop v senderSession) ↔ Careful c (.stop v senderSession) := by
  have hstep : step c (.stop v senderSession) = c.handle senderSession c.closeViewer := rfl
  unfold Isolated Careful
  rw [hstep]
  cases senderSession with
  | none => simp
  | some session =>
      rw [Client.handle_some, Client.closeViewer_eq]
      cases hlistening : c.listening with
      | false => simp
      | true =>
          rw [if_pos rfl]
          constructor
          · intro hisolated session' q hsession _ hviewer other hother
            cases hsession
            by_contra hne
            obtain ⟨ice, hslot⟩ := Client.slot_of_held ((c.held_viewerPcs session).trans hviewer)
            obtain ⟨pc, hpc, hholder, hpending⟩ := h.inSlot hslot
            obtain ⟨hsame, hheld⟩ := hisolated v rfl q other hother hne
            rw [hpending] at hheld
            have hgone := Client.slot_of_pending (hsame.trans hpc) hheld
            rw [Client.slot_closeSlot, if_pos hholder] at hgone
            cases hgone
          · rintro hcareful serverId ⟨⟩ p other hother hne
            refine Client.close_frame fun hheld => ?_
            rw [Client.held_viewerPcs] at hheld
            exact hne (hcareful session p rfl rfl hheld other hother)

theorem isolated_of_signalOf {event : Event V S A I} (hevent : event.signalOf = none) :
    Isolated c event := by
  intro serverId hserver
  rw [hevent] at hserver
  cases hserver

theorem step_of_careful (h : Sound c) {event : Event V S A I} (hlegit : Legit c event)
    (hcareful : Careful c event) : Sound (step c event) ∧ Isolated c event := by
  cases event with
  | stop v senderSession => exact ⟨h.stop v senderSession, h.isolated_stop_iff.mpr hcareful⟩
  | sdpAnswer v senderSession sdp q =>
      obtain ⟨⟨session, rfl, hoffered⟩, hanswers⟩ := hlegit
      have htarget := (h.careful_answer_iff hoffered hanswers).mp hcareful
      exact h.answer_of_target hoffered hanswers htarget
  | iceCandidate v senderSession payload q =>
      obtain ⟨session, rfl, hoffered⟩ := hlegit
      cases payload with
      | none =>
          unfold Isolated
          rw [step_iceCandidate_none]
          exact ⟨h, fun _ _ _ _ _ _ => ⟨rfl, rfl⟩⟩
      | some candidate =>
          exact h.candidate_of_target hoffered ((h.careful_candidate_iff hoffered).mp hcareful)
  | _ => exact ⟨h.step_of_signalOf rfl, isolated_of_signalOf rfl⟩

theorem careful_of_reaches (h : Sound c) {event : Event V S A I} (hlegit : Legit c event)
    (hreaches : Reaches c event) : Careful c event := by
  obtain ⟨hrouted, hisolated⟩ := hreaches
  cases event with
  | stop v senderSession => exact h.isolated_stop_iff.mp hisolated
  | sdpAnswer v senderSession sdp q =>
      obtain ⟨⟨session, rfl, hoffered⟩, hanswers⟩ := hlegit
      rw [step_sdpAnswer] at hrouted
      refine (h.careful_answer_iff hoffered hanswers).mpr
        (h.target_of_routed_answer (fun k hk => ?_) hrouted)
      obtain ⟨-, hk⟩ := Option.ite_none_right_eq_some.mp hk
      exact Client.exists_of_haveLocalOffer (Client.haveLocalOffer_of_answerTarget hk)
  | iceCandidate v senderSession payload q =>
      obtain ⟨session, rfl, hoffered⟩ := hlegit
      cases payload with
      | none => exact nofun
      | some candidate =>
          rw [step_iceCandidate] at hrouted
          refine (h.careful_candidate_iff hoffered).mpr
            (h.target_of_routed_candidate (fun k hk => ?_) hrouted)
          obtain ⟨-, hk⟩ := Option.ite_none_right_eq_some.mp hk
          exact Client.held_of_candidateTarget hk
  | _ => trivial

theorem reaches_iff_careful (h : Sound c) {event : Event V S A I} (hlegit : Legit c event) :
    Reaches c event ↔ Careful c event := by
  refine ⟨h.careful_of_reaches hlegit, fun hcareful => ?_⟩
  obtain ⟨hsound, hisolated⟩ := h.step_of_careful hlegit hcareful
  exact ⟨hsound.routed, hisolated⟩

end Sound

/-! ## Runs -/

section

variable [DecidableEq V] [DecidableEq S]

/-- In every run the signals reach their connections exactly when none can be taken for one of
another connection. -/
theorem signals_reach_iff (snapshot : V) (ownSession : V → S) {events : List (Event V S A I)}
    (h : Along step Legit (start snapshot ownSession) events) :
    Along step Reaches (start snapshot ownSession) events ↔
      Along step Careful (start snapshot ownSession) events :=
  along_iff_along (fun _ _ hsound hlegit => hsound.reaches_iff_careful hlegit)
    (fun _ _ hsound hlegit hcareful => (hsound.step_of_careful hlegit hcareful).1)
    (Sound.start snapshot ownSession) h

end

def watchRun : List (Event String ℕ String String) :=
  [.setListening true, .startWatching 7, .offerCreated 0, .localDescriptionSet 0,
    .iceCandidate "a" (some 7) (some "candidate") 0, .sdpAnswer "a" (some 7) "answer" 0,
    .remoteDescriptionSet 0]

theorem signals_reach_watched : Along step Reaches (start "a" fun _ => 1) watchRun := by
  refine (signals_reach_iff "a" (fun _ => 1) ?_).mpr ?_
  · exact ⟨trivial, trivial, trivial, trivial, ⟨7, rfl, rfl⟩, ⟨⟨7, rfl, rfl⟩, rfl⟩, trivial,
      trivial⟩
  · refine ⟨trivial, trivial, trivial, trivial, fun _ => ⟨fun _ => rfl, ?_⟩,
      ⟨fun _ => rfl, ?_⟩, trivial, trivial⟩
    · rintro session ⟨⟩ _ _
      exact ⟨rfl, fun hviewer => absurd rfl hviewer⟩
    · rintro session ⟨⟩ _ hviewer
      exact absurd rfl hviewer

/-- The own broadcast takes the candidate of a broadcaster who is watched. -/
theorem broadcast_takes_candidate :
    ¬∀ events : List (Event String ℕ String String),
      Along step Legit (start "a" fun _ => 1) events →
        Along step Reaches (start "a" fun _ => 1) events := by
  intro hall
  have hreaches := hall
    [.setListening true, .startWatching 7, .offerCreated 0, .localDescriptionSet 0,
      .connectBroadcasterToServer, .iceCandidate "a" (some 7) (some "candidate") 0]
    ⟨trivial, trivial, trivial, trivial, trivial, ⟨7, rfl, rfl⟩, trivial⟩
  obtain ⟨-, -, -, -, -, ⟨hrouted, -⟩, -⟩ := hreaches
  have hlost : ([] : List String) = ["candidate"] := (hrouted.isOpen 0 _ _ rfl rfl).1
  cases hlost

end FancyMumble.Interface.PeerConnections
