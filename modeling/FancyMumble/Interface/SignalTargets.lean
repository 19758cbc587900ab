import FancyMumble.Interface.ConnectionSteps

/-!
# Targets of signals

The dispatcher asks the variables of the peer connections in turn, and gives a signal to the
first one that takes it.
-/

namespace FancyMumble.Interface.PeerConnections

variable {V S A I : Type}

/-! ## Places -/

namespace Client

def held (c : Client V S A I) (k : Holder S) : Option ℕ := (c.slot k).map Prod.fst

def place (c : Client V S A I) (q : ℕ) : Option (Holder S) :=
  if c.isOpen q then (c.pcs q).map RTCPeerConnection.holder else none

theorem held_broadcasterPc (c : Client V S A I) : c.held .broadcasterPc = c.broadcasterPc := by
  rw [held, slot, Option.map_map]
  exact Option.map_id'

theorem held_viewerPcs (c : Client V S A I) (session : S) :
    c.held (.viewerPcs session) = c.viewerPc session := by
  rw [held, slot, Option.map_map]
  rfl

theorem held_previewPc (c : Client V S A I) : c.held .previewPc = c.previewPc := by
  rw [held, slot, Option.map_map]
  exact Option.map_id'

theorem slot_of_held {c : Client V S A I} {k : Holder S} {q : ℕ} (h : c.held k = some q) :
    ∃ ice, c.slot k = some (q, ice) := by
  obtain ⟨⟨p, ice⟩, hslot, rfl⟩ := Option.map_eq_some_iff.mp h
  exact ⟨ice, hslot⟩

theorem isOpen_iff {c : Client V S A I} {q : ℕ} : c.isOpen q = true ↔ ∃ k, c.place q = some k := by
  constructor
  · intro hopen
    cases hpc : c.pcs q with
    | none =>
        rw [isOpen, hpc] at hopen
        cases hopen
    | some pc =>
        refine ⟨pc.holder, ?_⟩
        rw [place, if_pos hopen, hpc]
        rfl
  · rintro ⟨k, hplace⟩
    exact (Option.ite_none_right_eq_some.mp hplace).1

end Client

namespace Sound

variable {c : Client V S A I} {q : ℕ} {k : Holder S}

theorem place_eq_some_iff (h : Sound c) : c.place q = some k ↔ c.held k = some q := by
  unfold Client.place
  constructor
  · intro hplace
    obtain ⟨hopen, hholder⟩ := Option.ite_none_right_eq_some.mp hplace
    obtain ⟨pc, hpc, rfl⟩ := Option.map_eq_some_iff.mp hholder
    rw [c.isOpen_eq] at hopen
    obtain ⟨ice, hice⟩ := Option.isSome_iff_exists.mp hopen
    rw [Client.held, Client.slot_of_pending hpc hice]
    rfl
  · intro hheld
    obtain ⟨ice, hslot⟩ := Client.slot_of_held hheld
    obtain ⟨pc, hpc, hholder, hpending⟩ := h.inSlot hslot
    have hopen : c.isOpen q = true := by
      rw [c.isOpen_eq]
      exact Option.isSome_iff_exists.mpr ⟨ice, hpending⟩
    rw [if_pos hopen, hpc, Option.map_some, hholder]

theorem held_ne (h : Sound c) {k' : Holder S} (hplace : c.place q = some k) (hne : k' ≠ k) :
    c.held k' ≠ some q := by
  intro hheld
  have hplace' := h.place_eq_some_iff.mpr hheld
  rw [hplace] at hplace'
  exact hne (Option.some.inj hplace').symm

theorem held_ne_of_closed (h : Sound c) (hplace : c.place q = none) (k : Holder S) :
    c.held k ≠ some q := by
  intro hheld
  exact nomatch hplace.symm.trans (h.place_eq_some_iff.mpr hheld)

theorem haveLocalOffer_of_unanswered (h : Sound c) (hplace : c.place q = some k)
    (hoffered : c.offered q ≠ none) (hanswers : c.answersFor q = []) :
    c.haveLocalOffer (c.held k) = true := by
  obtain ⟨ice, hslot⟩ := Client.slot_of_held (h.place_eq_some_iff.mp hplace)
  obtain ⟨pc, hpc, -, hpending⟩ := h.inSlot hslot
  have hline := h.lines q pc hpc
  have hremote : pc.remoteDescription = none := by
    have hnil := hline.answers_eq
    rw [hanswers, List.append_eq_nil_iff] at hnil
    exact Option.toList_eq_nil_iff.mp hnil.1
  have hstate := (hline.isOpen ice hpending).2.2
  rw [hremote, Option.isSome_iff_ne_none.mpr hoffered] at hstate
  unfold Client.haveLocalOffer
  rw [h.place_eq_some_iff.mp hplace, Option.bind_some, hpc]
  exact decide_eq_true (congrArg some hstate)

theorem session_of_place (h : Sound c) {session session' : S} {v : V}
    (hplace : c.place q = some (.viewerPcs session')) (hoffered : c.offered q = some (v, session)) :
    session' = session := by
  obtain ⟨ice, hslot⟩ := Client.slot_of_held (h.place_eq_some_iff.mp hplace)
  obtain ⟨pc, hpc, hholder, -⟩ := h.inSlot hslot
  exact (h.lines q pc hpc).session v session hoffered session' hholder

end Sound

/-! ## Answers -/

namespace Client

variable {c : Client V S A I} {q : ℕ} {k : Holder S}

def answerTarget (c : Client V S A I) (session : S) : Option (Holder S) :=
  if c.haveLocalOffer (c.viewerPc session) then some (.viewerPcs session)
  else if c.haveLocalOffer c.broadcasterPc then some .broadcasterPc
  else if c.haveLocalOffer c.previewPc then some .previewPc
  else none

theorem routeSdpAnswer_eq (c : Client V S A I) (session : S) (sdp : A) :
    c.routeSdpAnswer session sdp =
      (c.answerTarget session).elim c fun k => c.handleServerAnswer (c.held k) k sdp := by
  unfold routeSdpAnswer answerTarget
  split
  · rw [Option.elim_some, held_viewerPcs]
  · split
    · rw [Option.elim_some, held_broadcasterPc]
    · split
      · rw [Option.elim_some, held_previewPc]
      · rfl

theorem haveLocalOffer_of_answerTarget {session : S} (h : c.answerTarget session = some k) :
    c.haveLocalOffer (c.held k) = true := by
  unfold answerTarget at h
  split at h
  next hviewer =>
    cases h
    rwa [held_viewerPcs]
  next =>
    split at h
    next hbroadcaster =>
      cases h
      rwa [held_broadcasterPc]
    next =>
      split at h
      next hpreview =>
        cases h
        rwa [held_previewPc]
      next => cases h

theorem exists_of_haveLocalOffer {pc : Option ℕ} (h : c.haveLocalOffer pc = true) :
    ∃ p, pc = some p := by
  cases pc with
  | none => cases h
  | some p => exact ⟨p, rfl⟩

theorem answerTarget_eq_none {session : S} :
    c.answerTarget session = none ↔
      c.haveLocalOffer (c.viewerPc session) = false ∧ c.haveLocalOffer c.broadcasterPc = false ∧
        c.haveLocalOffer c.previewPc = false := by
  unfold answerTarget
  cases c.haveLocalOffer (c.viewerPc session) with
  | true => simp
  | false =>
      cases c.haveLocalOffer c.broadcasterPc with
      | true => simp
      | false => simp

theorem answerTarget_viewerPcs {session : S}
    (h : c.haveLocalOffer (c.viewerPc session) = true) :
    c.answerTarget session = some (.viewerPcs session) := by
  rw [answerTarget, if_pos h]

theorem answerTarget_broadcasterPc {session : S} (h : c.haveLocalOffer c.broadcasterPc = true) :
    c.answerTarget session = some .broadcasterPc ↔
      c.haveLocalOffer (c.viewerPc session) = false := by
  unfold answerTarget
  rw [if_pos h]
  cases c.haveLocalOffer (c.viewerPc session) with
  | true => simp
  | false => simp

theorem answerTarget_previewPc {session : S} (h : c.haveLocalOffer c.previewPc = true) :
    c.answerTarget session = some .previewPc ↔
      c.haveLocalOffer (c.viewerPc session) = false ∧
        c.haveLocalOffer c.broadcasterPc = false := by
  unfold answerTarget
  rw [if_pos h]
  cases c.haveLocalOffer (c.viewerPc session) with
  | true => simp
  | false => simp

@[simp] theorem pcs_noteAnswer (c : Client V S A I) (q : ℕ) (sdp : A) :
    (c.noteAnswer q sdp).pcs = c.pcs := by
  unfold noteAnswer
  split
  · rfl
  · rfl

@[simp] theorem slot_noteAnswer (c : Client V S A I) (q : ℕ) (sdp : A) :
    (c.noteAnswer q sdp).slot = c.slot := by
  unfold noteAnswer
  split
  · rfl
  · rfl

theorem pending_noteAnswer (c : Client V S A I) (q : ℕ) (sdp : A) :
    (c.noteAnswer q sdp).pending = c.pending := by
  funext p
  unfold pending
  rw [pcs_noteAnswer, slot_noteAnswer]

theorem answersFor_noteAnswer {c : Client V S A I} (h : c.isOpen q = true) (sdp : A) :
    (c.noteAnswer q sdp).answersFor q = c.answersFor q ++ [sdp] := by
  rw [noteAnswer, if_pos h]
  exact Function.update_self ..

theorem answersFor_noteAnswer_of_ne {p : ℕ} (h : p ≠ q) (c : Client V S A I) (sdp : A) :
    (c.noteAnswer q sdp).answersFor p = c.answersFor p := by
  unfold noteAnswer
  split
  · exact Function.update_of_ne h ..
  · rfl

@[simp] theorem answersFor_handleServerAnswer (c : Client V S A I) (pc : Option ℕ)
    (k : Holder S) (sdp : A) : (c.handleServerAnswer pc k sdp).answersFor = c.answersFor := by
  cases pc with
  | none => rfl
  | some q => rfl

theorem pending_handleServerAnswer (c : Client V S A I) (pc : Option ℕ) (k : Holder S)
    (sdp : A) : (c.handleServerAnswer pc k sdp).pending = c.pending := by
  cases pc with
  | none => rfl
  | some q => exact c.pending_modify q fun _ => rfl

theorem isOpen_handleServerAnswer (c : Client V S A I) (pc : Option ℕ) (k : Holder S) (sdp : A)
    (q : ℕ) : (c.handleServerAnswer pc k sdp).isOpen q = c.isOpen q := by
  rw [isOpen_eq, isOpen_eq, pending_handleServerAnswer]

end Client

namespace Sound

variable {c : Client V S A I} {q : ℕ} {k : Holder S}

theorem answered (h : Sound c) (hplace : c.place q = some k) (hsent : c.offered q ≠ none)
    (hanswers : c.answersFor q = []) (sdp : A) :
    Sound ((c.handleServerAnswer (c.held k) k sdp).noteAnswer q sdp) := by
  have hheld := h.place_eq_some_iff.mp hplace
  obtain ⟨ice, hslot⟩ := Client.slot_of_held hheld
  obtain ⟨pc, hpc, rfl, hpending⟩ := h.inSlot hslot
  have hline := h.lines q pc hpc
  rw [hpending, hanswers] at hline
  have hsound := h.of_modify hpc
    (f := fun pc' => { pc' with settingRemote := pc'.settingRemote ++ [(pc.holder, sdp)] })
    (fun _ => rfl) (hpending ▸ hline.answer hsent sdp)
  have hopen : (c.handleServerAnswer (some q) pc.holder sdp).isOpen q = true := by
    rw [Client.isOpen_handleServerAnswer]
    exact Client.isOpen_iff.mpr ⟨pc.holder, hplace⟩
  rw [hheld, Client.noteAnswer, if_pos hopen]
  simpa [Client.handleServerAnswer, Client.record, Client.modify, hanswers] using hsound

end Sound

theorem step_sdpAnswer [DecidableEq V] [DecidableEq S] (c : Client V S A I) (v : V)
    (session : S) (sdp : A) (q : ℕ) :
    step c (.sdpAnswer v (some session) sdp q) =
      ((if c.listening then c.answerTarget session else none).elim c fun k =>
        c.handleServerAnswer (c.held k) k sdp).noteAnswer q sdp := by
  unfold step Client.handle
  dsimp only
  split
  next => rw [Client.routeSdpAnswer_eq]
  next => rfl

/-! ## Candidates -/

namespace Client

variable {c : Client V S A I} {q : ℕ} {k : Holder S}

def candidateTarget (c : Client V S A I) (session : S) : Option (Holder S) :=
  if c.broadcasterPc.isSome then some .broadcasterPc
  else if (c.viewerPc session).isSome then some (.viewerPcs session)
  else if c.previewPc.isSome then some .previewPc
  else none

theorem held_of_candidateTarget {session : S} (h : c.candidateTarget session = some k) :
    ∃ p, c.held k = some p := by
  unfold candidateTarget at h
  split at h
  next hbroadcaster =>
    cases h
    rw [held_broadcasterPc]
    exact Option.isSome_iff_exists.mp hbroadcaster
  next =>
    split at h
    next hviewer =>
      cases h
      rw [held_viewerPcs]
      exact Option.isSome_iff_exists.mp hviewer
    next =>
      split at h
      next hpreview =>
        cases h
        rw [held_previewPc]
        exact Option.isSome_iff_exists.mp hpreview
      next => cases h

theorem candidateTarget_eq_none {session : S} :
    c.candidateTarget session = none ↔
      c.broadcasterPc = none ∧ c.viewerPc session = none ∧ c.previewPc = none := by
  unfold candidateTarget
  cases c.broadcasterPc with
  | some p => simp
  | none =>
      cases c.viewerPc session with
      | some p => simp
      | none => simp

theorem candidateTarget_broadcasterPc {session : S} (h : c.broadcasterPc = some q) :
    c.candidateTarget session = some .broadcasterPc := by
  rw [candidateTarget, h]
  rfl

theorem candidateTarget_viewerPcs {session : S} (h : c.viewerPc session = some q) :
    c.candidateTarget session = some (.viewerPcs session) ↔ c.broadcasterPc = none := by
  unfold candidateTarget
  rw [h]
  cases c.broadcasterPc with
  | some p => simp
  | none => simp

theorem candidateTarget_previewPc {session : S} (h : c.previewPc = some q) :
    c.candidateTarget session = some .previewPc ↔
      c.broadcasterPc = none ∧ c.viewerPc session = none := by
  unfold candidateTarget
  rw [h]
  cases c.broadcasterPc with
  | some p => simp
  | none =>
      cases c.viewerPc session with
      | some p => simp
      | none => simp

@[simp] theorem pcs_noteCandidate (c : Client V S A I) (q : ℕ) (candidate : I) :
    (c.noteCandidate q candidate).pcs = c.pcs := by
  unfold noteCandidate
  split
  · rfl
  · rfl

@[simp] theorem slot_noteCandidate (c : Client V S A I) (q : ℕ) (candidate : I) :
    (c.noteCandidate q candidate).slot = c.slot := by
  unfold noteCandidate
  split
  · rfl
  · rfl

theorem pending_noteCandidate (c : Client V S A I) (q : ℕ) (candidate : I) :
    (c.noteCandidate q candidate).pending = c.pending := by
  funext p
  unfold pending
  rw [pcs_noteCandidate, slot_noteCandidate]

theorem candidatesFor_noteCandidate (h : c.isOpen q = true) (candidate : I) :
    (c.noteCandidate q candidate).candidatesFor q = c.candidatesFor q ++ [candidate] := by
  rw [noteCandidate, if_pos h]
  exact Function.update_self ..

theorem candidatesFor_noteCandidate_of_ne {p : ℕ} (h : p ≠ q) (c : Client V S A I)
    (candidate : I) : (c.noteCandidate q candidate).candidatesFor p = c.candidatesFor p := by
  unfold noteCandidate
  split
  · exact Function.update_of_ne h ..
  · rfl

variable [DecidableEq S]

theorem routeIceCandidate_eq (c : Client V S A I) (session : S) (candidate : I) :
    c.routeIceCandidate session (some candidate) =
      (c.candidateTarget session).elim c fun k => c.pushSlot k candidate := by
  cases hbroadcaster : c.broadcasterPc with
  | some q =>
      rw [candidateTarget_broadcasterPc hbroadcaster]
      simp [routeIceCandidate, hbroadcaster, pushSlot, slot, setSlot]
  | none =>
      cases hviewer : c.viewerPcs session with
      | some state =>
          have hpc : c.viewerPc session = some state.pc := by simp [viewerPc, hviewer]
          rw [(candidateTarget_viewerPcs hpc).mpr hbroadcaster]
          simp [routeIceCandidate, hbroadcaster, hviewer, pushSlot, slot, setSlot]
      | none =>
          have hpc : c.viewerPc session = none := by simp [viewerPc, hviewer]
          cases hpreview : c.previewPc with
          | some q =>
              rw [(candidateTarget_previewPc hpreview).mpr ⟨hbroadcaster, hpc⟩]
              simp [routeIceCandidate, hbroadcaster, hviewer, hpreview, pushSlot, slot, setSlot]
          | none =>
              rw [candidateTarget_eq_none.mpr ⟨hbroadcaster, hpc, hpreview⟩]
              simp [routeIceCandidate, hbroadcaster, hviewer, hpreview]

@[simp] theorem offered_pushSlot (c : Client V S A I) (k : Holder S) (candidate : I) :
    (c.pushSlot k candidate).offered = c.offered := by
  unfold pushSlot
  split
  · split
    · rfl
    · rw [offered_setSlot]
  · rfl

@[simp] theorem answersFor_pushSlot (c : Client V S A I) (k : Holder S) (candidate : I) :
    (c.pushSlot k candidate).answersFor = c.answersFor := by
  unfold pushSlot
  split
  · split
    · rfl
    · rw [answersFor_setSlot]
  · rfl

@[simp] theorem candidatesFor_pushSlot (c : Client V S A I) (k : Holder S) (candidate : I) :
    (c.pushSlot k candidate).candidatesFor = c.candidatesFor := by
  unfold pushSlot
  split
  · split
    · rfl
    · rw [candidatesFor_setSlot]
  · rfl

theorem held_pushSlot (c : Client V S A I) (k k' : Holder S) (candidate : I) :
    (c.pushSlot k candidate).held k' = c.held k' := by
  unfold pushSlot held
  cases hslot : c.slot k with
  | none => rfl
  | some entry =>
      dsimp only
      split
      · rw [slot_modify]
      · rw [slot_setSlot]
        split
        next hk =>
          rw [hk, hslot]
          rfl
        next => rfl

end Client

namespace Sound

variable [DecidableEq S] {c : Client V S A I} {p q : ℕ} {k : Holder S}

theorem pushed (h : Sound c) (hheld : c.held k = some p) (candidate : I) :
    Sound ((c.pushSlot k candidate).record p (c.offered p) (c.answersFor p)
      (c.candidatesFor p ++ [candidate])) := by
  obtain ⟨ice, hslot⟩ := Client.slot_of_held hheld
  obtain ⟨pc, hpc, -, hpending⟩ := h.inSlot hslot
  have hline := h.lines p pc hpc
  rw [hpending] at hline
  have hhas : c.hasRemoteDescription p = pc.remoteDescription.isSome := by
    rw [Client.hasRemoteDescription, hpc, Option.bind_some]
  unfold Client.pushSlot
  rw [hslot]
  dsimp only
  rw [hhas]
  cases hremote : pc.remoteDescription with
  | some sdp =>
      have hpushed := hline.push (by rw [hremote]; rfl) candidate
      exact h.of_modify hpc (fun pc => pc.holder_addIceCandidates _) (hpending ▸ hpushed)
  | none =>
      refine h.of_setSlot hslot (ice ++ [candidate]) fun pc' hpc' _ => ?_
      cases hpc.symm.trans hpc'
      exact hline.hold hremote candidate

theorem isOpen_pushSlot (h : Sound c) (hplace : c.place q = some k) (candidate : I) :
    (c.pushSlot k candidate).isOpen q = true := by
  have hheld := h.place_eq_some_iff.mp hplace
  have hpushed := h.pushed hheld candidate
  have hplace' := hpushed.place_eq_some_iff.mpr
    ((c.held_pushSlot k k candidate).trans hheld)
  exact Client.isOpen_iff.mpr ⟨k, hplace'⟩

theorem candidateAdded (h : Sound c) (hplace : c.place q = some k) (candidate : I) :
    Sound ((c.pushSlot k candidate).noteCandidate q candidate) := by
  have hpushed := h.pushed (h.place_eq_some_iff.mp hplace) candidate
  rw [Client.noteCandidate, if_pos (h.isOpen_pushSlot hplace candidate)]
  simpa [Client.record] using hpushed

end Sound

section

variable [DecidableEq V] [DecidableEq S]

theorem step_iceCandidate (c : Client V S A I) (v : V) (session : S) (candidate : I) (q : ℕ) :
    step c (.iceCandidate v (some session) (some candidate) q) =
      ((if c.listening then c.candidateTarget session else none).elim c fun k =>
        c.pushSlot k candidate).noteCandidate q candidate := by
  unfold step Client.handle
  dsimp only
  split
  next => rw [Client.routeIceCandidate_eq]
  next => rfl

theorem step_iceCandidate_none (c : Client V S A I) (v : V) (session : S) (q : ℕ) :
    step c (.iceCandidate v (some session) none q) = c := by
  unfold step Client.handle
  dsimp only
  split
  next => rfl
  next => rfl

end

end FancyMumble.Interface.PeerConnections
