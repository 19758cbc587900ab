import FancyMumble.Interface.PeerConnections

/-!
# Slots of the peer connections

The variables of the screen share are slots, each with a peer connection and the candidates
that wait for its remote description. What has come for a connection is what it was given
followed by what its slot holds back.
-/

namespace FancyMumble.Interface.PeerConnections

variable {V S A I : Type}

namespace Client

/-! ## Slots -/

def slot (c : Client V S A I) : Holder S → Option (ℕ × List I)
  | .broadcasterPc => c.broadcasterPc.map fun q => (q, c.broadcasterPendingIce)
  | .viewerPcs session => (c.viewerPcs session).map fun state => (state.pc, state.pendingIce)
  | .previewPc => c.previewPc.map fun q => (q, c.previewPendingIce)

@[simp] theorem slot_modify (c : Client V S A I) (q : ℕ)
    (f : RTCPeerConnection V S A I → RTCPeerConnection V S A I) :
    (c.modify q f).slot = c.slot := by
  funext k
  cases k with
  | broadcasterPc => rfl
  | viewerPcs session => rfl
  | previewPc => rfl

@[simp] theorem pcs_modify_self (c : Client V S A I) (q : ℕ)
    (f : RTCPeerConnection V S A I → RTCPeerConnection V S A I) :
    (c.modify q f).pcs q = (c.pcs q).map f := by
  simp [modify]

theorem pcs_modify_of_ne (c : Client V S A I) {p q : ℕ} (h : p ≠ q)
    (f : RTCPeerConnection V S A I → RTCPeerConnection V S A I) :
    (c.modify q f).pcs p = c.pcs p := by
  simp [modify, h]

def pending (c : Client V S A I) (q : ℕ) : Option (List I) :=
  (c.pcs q).bind fun pc => (c.slot pc.holder).bind fun entry =>
    if entry.1 = q then some entry.2 else none

def serverOf (c : Client V S A I) (q : ℕ) : Option V :=
  ((c.offered q).map Prod.fst).or ((c.pcs q).bind RTCPeerConnection.serverId)

theorem pending_of_slot {c : Client V S A I} {q : ℕ} {pc : RTCPeerConnection V S A I}
    {ice : List I} (hpc : c.pcs q = some pc) (hslot : c.slot pc.holder = some (q, ice)) :
    c.pending q = some ice := by
  simp [pending, hpc, hslot]

theorem slot_of_pending {c : Client V S A I} {q : ℕ} {pc : RTCPeerConnection V S A I}
    {ice : List I} (hpc : c.pcs q = some pc) (hpending : c.pending q = some ice) :
    c.slot pc.holder = some (q, ice) := by
  unfold pending at hpending
  rw [hpc, Option.bind_some] at hpending
  obtain ⟨⟨p, held⟩, hslot, hsame⟩ := Option.bind_eq_some_iff.mp hpending
  obtain ⟨rfl, ⟨⟩⟩ := Option.ite_none_right_eq_some.mp hsame
  exact hslot

theorem isOpen_eq (c : Client V S A I) (q : ℕ) : c.isOpen q = (c.pending q).isSome := by
  unfold isOpen pending
  cases c.pcs q with
  | none => rfl
  | some pc =>
      cases hholder : pc.holder with
      | broadcasterPc =>
          cases hslot : c.broadcasterPc with
          | none => simp [isCurrent, slot, hslot, hholder]
          | some p =>
              by_cases hp : p = q
              · simp [isCurrent, slot, hslot, hholder, hp]
              · simp [isCurrent, slot, hslot, hholder, hp]
      | viewerPcs session =>
          cases hslot : c.viewerPcs session with
          | none => simp [isCurrent, slot, hslot, hholder]
          | some state =>
              by_cases hp : state.pc = q
              · simp [isCurrent, slot, hslot, hholder, hp]
              · simp [isCurrent, slot, hslot, hholder, hp]
      | previewPc =>
          cases hslot : c.previewPc with
          | none => simp [isCurrent, slot, hslot, hholder]
          | some p =>
              by_cases hp : p = q
              · simp [isCurrent, slot, hslot, hholder, hp]
              · simp [isCurrent, slot, hslot, hholder, hp]

/-! ## Operations on slots -/

section

variable [DecidableEq S]

def setSlot (c : Client V S A I) (entry : Option (ℕ × List I)) : Holder S → Client V S A I
  | .broadcasterPc =>
      { c with
        broadcasterPc := entry.map Prod.fst
        broadcasterPendingIce := (entry.map Prod.snd).getD [] }
  | .viewerPcs session =>
      { c with
        viewerPcs := Function.update c.viewerPcs session
          (entry.map fun entry => ⟨entry.1, entry.2⟩) }
  | .previewPc =>
      { c with
        previewPc := entry.map Prod.fst
        previewPendingIce := (entry.map Prod.snd).getD [] }

theorem slot_setSlot (c : Client V S A I) (entry : Option (ℕ × List I)) (k k' : Holder S) :
    (c.setSlot entry k).slot k' = if k' = k then entry else c.slot k' := by
  cases k with
  | broadcasterPc =>
      cases k' with
      | broadcasterPc => cases entry with
        | none => rfl
        | some entry => rfl
      | _ => rfl
  | viewerPcs session =>
      cases k' with
      | viewerPcs session' =>
          by_cases hsession : session' = session
          · subst hsession
            cases entry with
            | none => simp [slot, setSlot]
            | some entry => simp [slot, setSlot]
          · simp [slot, setSlot, hsession]
      | _ => rfl
  | previewPc =>
      cases k' with
      | previewPc => cases entry with
        | none => rfl
        | some entry => rfl
      | _ => rfl

@[simp] theorem pcs_setSlot (c : Client V S A I) (entry : Option (ℕ × List I)) (k : Holder S) :
    (c.setSlot entry k).pcs = c.pcs := by
  cases k with
  | broadcasterPc => rfl
  | viewerPcs session => rfl
  | previewPc => rfl

def closeSlot (c : Client V S A I) (k : Holder S) : Client V S A I :=
  match c.slot k with
  | some entry => (c.modify entry.1 .close).setSlot none k
  | none => c.setSlot none k

def openSlot (c : Client V S A I) (k : Holder S) (broadcasterSession : Option S)
    (serverId : Option V) : Client V S A I :=
  (c.new k broadcasterSession serverId).setSlot (some (c.made, [])) k

def pushSlot (c : Client V S A I) (k : Holder S) (candidate : I) : Client V S A I :=
  match c.slot k with
  | some entry =>
      if c.hasRemoteDescription entry.1 then
        c.modify entry.1 (·.addIceCandidates [candidate])
      else c.setSlot (some (entry.1, entry.2 ++ [candidate])) k
  | none => c

def flushSlot (c : Client V S A I) (k : Holder S) : Client V S A I :=
  match c.slot k with
  | some entry =>
      (c.modify entry.1 (·.addIceCandidates entry.2)).setSlot (some (entry.1, [])) k
  | none => c

theorem stopBroadcasting_eq (c : Client V S A I) :
    c.stopBroadcasting = c.closeSlot .broadcasterPc := by
  unfold stopBroadcasting closeSlot slot
  cases c.broadcasterPc with
  | none => rfl
  | some q => rfl

theorem closePreview_eq (c : Client V S A I) : c.closePreview = c.closeSlot .previewPc := by
  unfold closePreview closeSlot slot
  cases c.previewPc with
  | none => rfl
  | some q => rfl

theorem closeViewer_eq (c : Client V S A I) (session : S) :
    c.closeViewer session = c.closeSlot (.viewerPcs session) := by
  cases hstate : c.viewerPcs session with
  | none =>
      have hslot : c.slot (.viewerPcs session) = none := by simp [slot, hstate]
      have hsame : Function.update c.viewerPcs session none = c.viewerPcs := by
        rw [← hstate, Function.update_eq_self]
      simp only [closeViewer, hstate, closeSlot, hslot, setSlot, Option.map_none, hsame]
  | some state =>
      have hslot : c.slot (.viewerPcs session) = some (state.pc, state.pendingIce) := by
        simp [slot, hstate]
      simp only [closeViewer, hstate, closeSlot, hslot]
      rfl

theorem connectBroadcasterToServer_eq (c : Client V S A I) :
    c.connectBroadcasterToServer =
      (c.closeSlot .broadcasterPc).openSlot .broadcasterPc none c.activeServerId := by
  unfold connectBroadcasterToServer
  rw [stopBroadcasting_eq]
  have hempty : (c.closeSlot .broadcasterPc).broadcasterPendingIce = [] := by
    unfold closeSlot
    split
    · rfl
    · rfl
  simp only [openSlot, setSlot, new, Option.map_some, Option.getD_some, hempty]

theorem requestThumbnail_eq (c : Client V S A I) (session : S) :
    c.requestThumbnail session =
      (c.closeSlot .previewPc).openSlot .previewPc (some session) none := by
  unfold requestThumbnail
  rw [closePreview_eq]
  have hempty : (c.closeSlot .previewPc).previewPendingIce = [] := by
    unfold closeSlot
    split
    · rfl
    · rfl
  simp only [openSlot, setSlot, new, Option.map_some, Option.getD_some, hempty]

theorem startWatching_eq (c : Client V S A I) {session : S}
    (h : c.slot (.viewerPcs session) = none) :
    c.startWatching session = (c.closeSlot .previewPc).openSlot (.viewerPcs session)
      (some session) c.activeServerId := by
  have hnone : c.viewerPcs session = none := Option.map_eq_none_iff.mp h
  unfold startWatching
  rw [hnone, closePreview_eq]
  rfl

theorem startWatching_of_some (c : Client V S A I) {session : S} {entry : ℕ × List I}
    (h : c.slot (.viewerPcs session) = some entry) : c.startWatching session = c := by
  obtain ⟨state, hstate, -⟩ := Option.map_eq_some_iff.mp h
  simp [startWatching, hstate]

theorem flushIce_eq (c : Client V S A I) (k : Holder S) : c.flushIce k = c.flushSlot k := by
  cases k with
  | broadcasterPc =>
      cases hpc : c.broadcasterPc with
      | none => simp [flushIce, flushSlot, slot, hpc]
      | some q => simp [flushIce, flushSlot, slot, hpc, setSlot, modify]
  | viewerPcs session =>
      cases hstate : c.viewerPcs session with
      | none => simp [flushIce, flushSlot, slot, hstate]
      | some state => simp [flushIce, flushSlot, slot, hstate, setSlot, modify]
  | previewPc =>
      cases hpc : c.previewPc with
      | none => simp [flushIce, flushSlot, slot, hpc]
      | some q => simp [flushIce, flushSlot, slot, hpc, setSlot, modify]

@[simp] theorem made_setSlot (c : Client V S A I) (entry : Option (ℕ × List I)) (k : Holder S) :
    (c.setSlot entry k).made = c.made := by
  cases k with
  | broadcasterPc => rfl
  | viewerPcs session => rfl
  | previewPc => rfl

@[simp] theorem offered_setSlot (c : Client V S A I) (entry : Option (ℕ × List I))
    (k : Holder S) : (c.setSlot entry k).offered = c.offered := by
  cases k with
  | broadcasterPc => rfl
  | viewerPcs session => rfl
  | previewPc => rfl

@[simp] theorem answersFor_setSlot (c : Client V S A I) (entry : Option (ℕ × List I))
    (k : Holder S) : (c.setSlot entry k).answersFor = c.answersFor := by
  cases k with
  | broadcasterPc => rfl
  | viewerPcs session => rfl
  | previewPc => rfl

@[simp] theorem candidatesFor_setSlot (c : Client V S A I) (entry : Option (ℕ × List I))
    (k : Holder S) : (c.setSlot entry k).candidatesFor = c.candidatesFor := by
  cases k with
  | broadcasterPc => rfl
  | viewerPcs session => rfl
  | previewPc => rfl

theorem slot_closeSlot (c : Client V S A I) (k k' : Holder S) :
    (c.closeSlot k).slot k' = if k' = k then none else c.slot k' := by
  unfold closeSlot
  split
  · rw [slot_setSlot, slot_modify]
  · rw [slot_setSlot]

theorem flushSlot_modify {c : Client V S A I} {q : ℕ} {k : Holder S} {ice : List I}
    (hslot : c.slot k = some (q, ice))
    (f : RTCPeerConnection V S A I → RTCPeerConnection V S A I) :
    (c.modify q f).flushSlot k =
      (c.modify q fun pc => (f pc).addIceCandidates ice).setSlot (some (q, [])) k := by
  have hmodify : (c.modify q f).modify q (·.addIceCandidates ice) =
      c.modify q fun pc => (f pc).addIceCandidates ice := by
    simp [modify, Function.comp_def]
  unfold flushSlot
  rw [slot_modify, hslot]
  exact congrArg (setSlot · (some (q, [])) k) hmodify

theorem pending_setSlot_of_ne {c : Client V S A I} {entry : Option (ℕ × List I)} {k : Holder S}
    {p : ℕ} (hold : ∀ e, c.slot k = some e → e.1 ≠ p) (hnew : ∀ e, entry = some e → e.1 ≠ p) :
    (c.setSlot entry k).pending p = c.pending p := by
  unfold pending
  rw [pcs_setSlot]
  cases c.pcs p with
  | none => rfl
  | some pc =>
      rw [Option.bind_some, Option.bind_some, slot_setSlot]
      split
      next hk =>
        subst hk
        have hbefore : (c.slot pc.holder).bind
            (fun entry => if entry.1 = p then some entry.2 else none) = none :=
          Option.bind_eq_none_iff.mpr fun e he => if_neg (hold e he)
        have hafter : entry.bind
            (fun entry => if entry.1 = p then some entry.2 else none) = none :=
          Option.bind_eq_none_iff.mpr fun e he => if_neg (hnew e he)
        rw [hbefore, hafter]
      next => rfl

end

theorem pending_modify (c : Client V S A I) (q : ℕ)
    {f : RTCPeerConnection V S A I → RTCPeerConnection V S A I}
    (hf : ∀ pc, (f pc).holder = pc.holder) : (c.modify q f).pending = c.pending := by
  funext p
  unfold pending
  rw [slot_modify]
  by_cases hp : p = q
  · subst hp
    rw [pcs_modify_self]
    cases c.pcs p with
    | none => rfl
    | some pc => simp [hf]
  · rw [pcs_modify_of_ne _ hp]

def record (c : Client V S A I) (q : ℕ) (offered : Option (V × S)) (answers : List A)
    (candidates : List I) : Client V S A I :=
  { c with
    offered := Function.update c.offered q offered
    answersFor := Function.update c.answersFor q answers
    candidatesFor := Function.update c.candidatesFor q candidates }

theorem record_self (c : Client V S A I) (q : ℕ) :
    c.record q (c.offered q) (c.answersFor q) (c.candidatesFor q) = c := by
  simp [record]

theorem modify_of_none {c : Client V S A I} {q : ℕ} (h : c.pcs q = none)
    (f : RTCPeerConnection V S A I → RTCPeerConnection V S A I) : c.modify q f = c := by
  have hupdate : Function.update c.pcs q none = c.pcs := by
    rw [← h, Function.update_eq_self]
  simp only [modify, h, Option.map_none, hupdate]

end Client

/-! ## What holds of a connection -/

structure Line (pc : RTCPeerConnection V S A I) (pending : Option (List I))
    (offered : Option (V × S)) (answers : List A) (candidates : List I) : Prop where
  answers_eq : pc.remoteDescription.toList ++ pc.settingRemote.map Prod.snd = answers
  flushes : ∀ entry ∈ pc.settingRemote, entry.1 = pc.holder
  one : answers.length ≤ 1
  sent : answers ≠ [] → offered ≠ none
  early : pc.remoteDescription = none → pc.iceCandidates = []
  negotiating : pc.negotiation ≠ .done → offered = none
  server : ∀ v s, offered = some (v, s) → ∀ serverId, pc.serverId = some serverId → serverId = v
  session : ∀ v s, offered = some (v, s) → ∀ session, pc.holder = .viewerPcs session → session = s
  watched : ∀ session, pc.holder = .viewerPcs session → pc.broadcasterSession = some session
  isOpen : ∀ ice, pending = some ice →
    pc.iceCandidates ++ ice = candidates ∧ (pc.remoteDescription ≠ none → ice = []) ∧
      pc.signalingState =
        if offered.isSome && pc.remoteDescription.isNone then .haveLocalOffer else .stable
  isClosed : pending = none →
    pc.signalingState = .closed ∧ (pc.remoteDescription ≠ none → pc.iceCandidates = candidates)

structure Sound (c : Client V S A I) : Prop where
  slots : ∀ k entry, c.slot k = some entry → ∃ pc, c.pcs entry.1 = some pc ∧ pc.holder = k
  lines : ∀ q pc, c.pcs q = some pc →
    Line pc (c.pending q) (c.offered q) (c.answersFor q) (c.candidatesFor q)
  fresh : ∀ q, c.made ≤ q → c.pcs q = none
  unmade : ∀ q, c.pcs q = none →
    c.offered q = none ∧ c.answersFor q = [] ∧ c.candidatesFor q = []

namespace Sound

variable {c c' : Client V S A I}

theorem inSlot (h : Sound c) {k : Holder S} {entry : ℕ × List I} (hslot : c.slot k = some entry) :
    ∃ pc, c.pcs entry.1 = some pc ∧ pc.holder = k ∧ c.pending entry.1 = some entry.2 := by
  obtain ⟨pc, hpc, hholder⟩ := h.slots k entry hslot
  refine ⟨pc, hpc, hholder, Client.pending_of_slot hpc ?_⟩
  rw [hholder, hslot]

theorem of_changed (h : Sound c) (q : ℕ) (hmade : c.made ≤ c'.made)
    (hslots : ∀ k entry, c'.slot k = some entry → ∃ pc, c'.pcs entry.1 = some pc ∧ pc.holder = k)
    (hother : ∀ p, p ≠ q → c'.pcs p = c.pcs p ∧ c'.pending p = c.pending p ∧
      c'.offered p = c.offered p ∧ c'.answersFor p = c.answersFor p ∧
      c'.candidatesFor p = c.candidatesFor p)
    (hq : q < c'.made)
    (hline : ∃ pc, c'.pcs q = some pc ∧
      Line pc (c'.pending q) (c'.offered q) (c'.answersFor q) (c'.candidatesFor q)) :
    Sound c' where
  slots := hslots
  lines p pc hpc := by
    by_cases hp : p = q
    · subst hp
      obtain ⟨pc', hpc', hline⟩ := hline
      rw [hpc] at hpc'
      cases hpc'
      exact hline
    · obtain ⟨hpcs, hpending, hoffered, hanswers, hcandidates⟩ := hother p hp
      rw [hpending, hoffered, hanswers, hcandidates]
      exact h.lines p pc (hpcs ▸ hpc)
  fresh p hp := by
    have hne : p ≠ q := by omega
    rw [(hother p hne).1]
    exact h.fresh p (hmade.trans hp)
  unmade p hp := by
    obtain ⟨pc, hpc, -⟩ := hline
    have hne : p ≠ q := by
      rintro rfl
      exact nomatch hpc.symm.trans hp
    obtain ⟨hpcs, -, hoffered, hanswers, hcandidates⟩ := hother p hne
    rw [hoffered, hanswers, hcandidates]
    exact h.unmade p (hpcs ▸ hp)

theorem lt_made (h : Sound c) {q : ℕ} {pc : RTCPeerConnection V S A I}
    (hpc : c.pcs q = some pc) : q < c.made := by
  by_contra hq
  exact nomatch hpc.symm.trans (h.fresh q (Nat.le_of_not_lt hq))

theorem of_modify (h : Sound c) {q : ℕ} {pc : RTCPeerConnection V S A I}
    (hpc : c.pcs q = some pc) {f : RTCPeerConnection V S A I → RTCPeerConnection V S A I}
    (hf : ∀ pc, (f pc).holder = pc.holder) {offered : Option (V × S)} {answers : List A}
    {candidates : List I} (hline : Line (f pc) (c.pending q) offered answers candidates) :
    Sound ((c.modify q f).record q offered answers candidates) := by
  have hpcs : (c.modify q f).pcs q = some (f pc) := by
    rw [Client.pcs_modify_self, hpc]
    rfl
  have hpending := c.pending_modify q hf
  refine h.of_changed q le_rfl ?_ ?_ (h.lt_made hpc) ⟨f pc, hpcs, ?_⟩
  · intro k entry hslot
    have hslot : (c.modify q f).slot k = some entry := hslot
    rw [Client.slot_modify] at hslot
    obtain ⟨pc', hpc', hholder⟩ := h.slots k entry hslot
    by_cases hq : entry.1 = q
    · rw [hq, hpc] at hpc'
      cases hpc'
      exact ⟨f pc, hq ▸ hpcs, (hf pc).trans hholder⟩
    · exact ⟨pc', (Client.pcs_modify_of_ne c hq f).trans hpc', hholder⟩
  · intro p hp
    refine ⟨Client.pcs_modify_of_ne c hp f, congrFun hpending p, ?_, ?_, ?_⟩
    · exact Function.update_of_ne hp ..
    · exact Function.update_of_ne hp ..
    · exact Function.update_of_ne hp ..
  · have hsame : ((c.modify q f).record q offered answers candidates).pending q = c.pending q :=
      congrFun hpending q
    rw [hsame]
    simpa [Client.record] using hline

theorem of_modify_silent (h : Sound c) {q : ℕ}
    {f : RTCPeerConnection V S A I → RTCPeerConnection V S A I}
    (hf : ∀ pc, (f pc).holder = pc.holder)
    (hline : ∀ pc, c.pcs q = some pc →
      Line (f pc) (c.pending q) (c.offered q) (c.answersFor q) (c.candidatesFor q)) :
    Sound (c.modify q f) := by
  cases hpc : c.pcs q with
  | none =>
      rw [Client.modify_of_none hpc]
      exact h
  | some pc =>
      have hsound := h.of_modify hpc hf (hline pc hpc)
      rwa [show (c.modify q f).record q (c.offered q) (c.answersFor q) (c.candidatesFor q) =
        c.modify q f from (c.modify q f).record_self q] at hsound

variable [DecidableEq S]

theorem of_slot (h : Sound c) {k : Holder S} {entry : ℕ × List I} (hslot : c.slot k = some entry)
    {f : RTCPeerConnection V S A I → RTCPeerConnection V S A I}
    (hf : ∀ pc, (f pc).holder = pc.holder) (ice : Option (List I)) {answers : List A}
    {candidates : List I}
    (hline : ∀ pc, c.pcs entry.1 = some pc → pc.holder = k →
      Line (f pc) ice (c.offered entry.1) answers candidates) :
    Sound (((c.modify entry.1 f).setSlot (ice.map fun ice => (entry.1, ice)) k).record entry.1
      (c.offered entry.1) answers candidates) := by
  obtain ⟨pc, hpc, hholder, -⟩ := h.inSlot hslot
  have hpcs : (c.modify entry.1 f).pcs entry.1 = some (f pc) := by
    rw [Client.pcs_modify_self, hpc]
    rfl
  have hpending : ((c.modify entry.1 f).setSlot (ice.map fun ice => (entry.1, ice)) k).pending
      entry.1 = ice := by
    unfold Client.pending
    rw [Client.pcs_setSlot, hpcs, Option.bind_some, Client.slot_setSlot, hf, hholder, if_pos rfl]
    cases ice with
    | none => rfl
    | some ice => simp
  refine h.of_changed entry.1 ?_ ?_ ?_ ?_ ⟨f pc, ?_, ?_⟩
  · show c.made ≤ ((c.modify entry.1 f).setSlot _ k).made
    rw [Client.made_setSlot]
    exact le_rfl
  · intro k' entry' hslot'
    have hslot' : ((c.modify entry.1 f).setSlot (ice.map fun ice => (entry.1, ice)) k).slot k' =
      some entry' := hslot'
    show ∃ pc, ((c.modify entry.1 f).setSlot _ k).pcs entry'.1 = some pc ∧ pc.holder = k'
    rw [Client.slot_setSlot] at hslot'
    rw [Client.pcs_setSlot]
    split at hslot'
    next hk =>
      obtain ⟨ice, -, rfl⟩ := Option.map_eq_some_iff.mp hslot'
      exact ⟨f pc, hpcs, (hf pc).trans (hholder.trans hk.symm)⟩
    next hk =>
      rw [Client.slot_modify] at hslot'
      obtain ⟨pc', hpc', hholder'⟩ := h.slots k' entry' hslot'
      have hne : entry'.1 ≠ entry.1 := by
        intro hsame
        rw [hsame, hpc] at hpc'
        cases hpc'
        exact hk (hholder'.symm.trans hholder)
      exact ⟨pc', (Client.pcs_modify_of_ne c hne f).trans hpc', hholder'⟩
  · intro p hp
    refine ⟨?_, ?_, ?_, ?_, ?_⟩
    · show ((c.modify entry.1 f).setSlot _ k).pcs p = c.pcs p
      rw [Client.pcs_setSlot, Client.pcs_modify_of_ne c hp f]
    · show ((c.modify entry.1 f).setSlot _ k).pending p = c.pending p
      rw [Client.pending_setSlot_of_ne, Client.pending_modify c entry.1 hf]
      · intro e he hsame
        rw [Client.slot_modify, hslot] at he
        cases he
        exact hp hsame.symm
      · intro e he hsame
        obtain ⟨ice, -, rfl⟩ := Option.map_eq_some_iff.mp he
        exact hp hsame.symm
    · simp [Client.record, Client.modify]
    · simp [Client.record, hp, Client.modify]
    · simp [Client.record, hp, Client.modify]
  · show entry.1 < ((c.modify entry.1 f).setSlot _ k).made
    rw [Client.made_setSlot]
    exact h.lt_made hpc
  · exact (congrFun (Client.pcs_setSlot ..) _).trans hpcs
  · have hsame : (((c.modify entry.1 f).setSlot (ice.map fun ice => (entry.1, ice)) k).record
        entry.1 (c.offered entry.1) answers candidates).pending entry.1 = ice := hpending
    rw [hsame]
    simpa [Client.record] using hline pc hpc hholder

theorem of_slot_silent (h : Sound c) {k : Holder S} {entry : ℕ × List I}
    (hslot : c.slot k = some entry) {f : RTCPeerConnection V S A I → RTCPeerConnection V S A I}
    (hf : ∀ pc, (f pc).holder = pc.holder) (ice : Option (List I))
    (hline : ∀ pc, c.pcs entry.1 = some pc → pc.holder = k →
      Line (f pc) ice (c.offered entry.1) (c.answersFor entry.1) (c.candidatesFor entry.1)) :
    Sound ((c.modify entry.1 f).setSlot (ice.map fun ice => (entry.1, ice)) k) := by
  have hsound := h.of_slot hslot hf ice hline
  have hself := ((c.modify entry.1 f).setSlot (ice.map fun ice => (entry.1, ice)) k).record_self
    entry.1
  rw [Client.offered_setSlot, Client.answersFor_setSlot, Client.candidatesFor_setSlot] at hself
  exact hself ▸ hsound

theorem of_setSlot (h : Sound c) {k : Holder S} {entry : ℕ × List I}
    (hslot : c.slot k = some entry) (ice : List I) {candidates : List I}
    (hline : ∀ pc, c.pcs entry.1 = some pc → pc.holder = k →
      Line pc (some ice) (c.offered entry.1) (c.answersFor entry.1) candidates) :
    Sound ((c.setSlot (some (entry.1, ice)) k).record entry.1 (c.offered entry.1)
      (c.answersFor entry.1) candidates) := by
  have hid : c.modify entry.1 id = c := by simp [Client.modify]
  have hsame : ∀ pc : RTCPeerConnection V S A I, (id pc).holder = pc.holder := fun _ => rfl
  have hsound := h.of_slot hslot hsame (some ice) hline
  rwa [hid] at hsound

end Sound

/-! ## Steps of one connection -/

namespace Line

variable {pc : RTCPeerConnection V S A I} {pending : Option (List I)} {ice : List I}
  {offered : Option (V × S)} {answers : List A} {candidates : List I}

theorem new (holder : Holder S) (broadcasterSession : Option S) (serverId : Option V)
    (h : ∀ session, holder = .viewerPcs session → broadcasterSession = some session) :
    Line ({ holder := holder, broadcasterSession := broadcasterSession, serverId := serverId } :
      RTCPeerConnection V S A I) (some []) none [] [] where
  answers_eq := rfl
  flushes _ hentry := nomatch hentry
  one := Nat.zero_le _
  sent hanswers := absurd rfl hanswers
  early _ := rfl
  negotiating _ := rfl
  server _ _ hoffered := nomatch hoffered
  session _ _ hoffered := nomatch hoffered
  watched := h
  isOpen ice hice := by
    cases hice
    exact ⟨rfl, fun _ => rfl, rfl⟩
  isClosed hnone := nomatch hnone

theorem close (h : Line pc (some ice) offered answers candidates) :
    Line pc.close none offered answers candidates where
  answers_eq := h.answers_eq
  flushes := h.flushes
  one := h.one
  sent := h.sent
  early := h.early
  negotiating := h.negotiating
  server := h.server
  session := h.session
  watched := h.watched
  isOpen _ hice := nomatch hice
  isClosed _ := by
    obtain ⟨hcandidates, hheld, -⟩ := h.isOpen ice rfl
    refine ⟨rfl, fun hremote => ?_⟩
    rw [← hcandidates, hheld hremote, List.append_nil]
    rfl

theorem negotiate (h : Line pc pending offered answers candidates)
    (hcreate : pc.negotiation = .createOffer) (next : Negotiation) :
    Line { pc with negotiation := next } pending offered answers candidates where
  answers_eq := h.answers_eq
  flushes := h.flushes
  one := h.one
  sent := h.sent
  early := h.early
  negotiating _ := h.negotiating (by simp [hcreate])
  server := h.server
  session := h.session
  watched := h.watched
  isOpen := h.isOpen
  isClosed := h.isClosed

theorem remote_of_unsent (h : Line pc pending none answers candidates) :
    pc.remoteDescription = none ∧ answers = [] := by
  have hanswers : answers = [] := by
    by_contra hne
    exact h.sent hne rfl
  refine ⟨?_, hanswers⟩
  have hnil := h.answers_eq
  rw [hanswers, List.append_eq_nil_iff] at hnil
  cases hremote : pc.remoteDescription with
  | none => rfl
  | some sdp =>
      rw [hremote] at hnil
      exact nomatch hnil.1

theorem offer (h : Line pc (some ice) none answers candidates) (snapshot : V)
    (ownSession : V → S) :
    Line { pc with negotiation := .done, signalingState := .haveLocalOffer } (some ice)
      (some (pc.serverId.getD snapshot,
        pc.broadcasterSession.getD (ownSession (pc.serverId.getD snapshot))))
      answers candidates where
  answers_eq := h.answers_eq
  flushes := h.flushes
  one := h.one
  sent _ := by simp
  early := h.early
  negotiating hdone := absurd rfl hdone
  server v s hoffered serverId hserver := by
    have hserver : pc.serverId = some serverId := hserver
    rw [hserver, Option.some.injEq, Prod.mk.injEq] at hoffered
    exact hoffered.1
  session v s hoffered session hholder := by
    rw [h.watched session hholder, Option.some.injEq, Prod.mk.injEq] at hoffered
    exact hoffered.2
  watched := h.watched
  isOpen held hheld := by
    obtain ⟨hcandidates, hflushed, -⟩ := h.isOpen held hheld
    refine ⟨hcandidates, hflushed, ?_⟩
    simp [h.remote_of_unsent.1]
  isClosed hnone := nomatch hnone

theorem answer (h : Line pc (some ice) offered [] candidates) (hsent : offered ≠ none) (sdp : A) :
    Line { pc with settingRemote := pc.settingRemote ++ [(pc.holder, sdp)] } (some ice) offered
      [sdp] candidates where
  answers_eq := by
    have hnil := h.answers_eq
    show pc.remoteDescription.toList ++
      (pc.settingRemote ++ [(pc.holder, sdp)]).map Prod.snd = [sdp]
    rw [List.map_append, ← List.append_assoc, hnil]
    rfl
  flushes entry hentry := by
    rcases List.mem_append.mp hentry with hentry | hentry
    · exact h.flushes entry hentry
    · rw [List.mem_singleton.mp hentry]
  one := le_rfl
  sent _ := hsent
  early := h.early
  negotiating := h.negotiating
  server := h.server
  session := h.session
  watched := h.watched
  isOpen := h.isOpen
  isClosed := h.isClosed

theorem setting (h : Line pc pending offered answers candidates) {entry : Holder S × A}
    {rest : List (Holder S × A)} (hsetting : pc.settingRemote = entry :: rest) :
    entry.1 = pc.holder ∧ rest = [] ∧ pc.remoteDescription = none ∧ answers = [entry.2] := by
  have hanswers := h.answers_eq
  rw [hsetting, List.map_cons] at hanswers
  have hlength := h.one
  rw [← hanswers, List.length_append, List.length_cons, List.length_map] at hlength
  have hremote : pc.remoteDescription = none := by
    cases hremote : pc.remoteDescription with
    | none => rfl
    | some sdp =>
        rw [hremote, Option.toList_some, List.length_singleton] at hlength
        omega
  have hrest : rest = [] := List.length_eq_zero_iff.mp (by omega)
  refine ⟨h.flushes entry ?_, hrest, hremote, ?_⟩
  · rw [hsetting]
    exact List.mem_cons_self
  · rw [← hanswers, hremote, hrest]
    rfl

theorem setRemote (h : Line pc (some ice) offered answers candidates) {holder : Holder S}
    {sdp : A} {rest : List (Holder S × A)} (hsetting : pc.settingRemote = (holder, sdp) :: rest) :
    Line (({ pc with
      remoteDescription := some sdp
      signalingState := .stable
      settingRemote := rest } : RTCPeerConnection V S A I).addIceCandidates ice) (some [])
      offered answers candidates := by
  obtain ⟨-, hrest, hremote, hanswers⟩ := h.setting hsetting
  obtain ⟨hcandidates, -, -⟩ := h.isOpen ice rfl
  rw [h.early hremote, List.nil_append] at hcandidates
  have hadd : ({ pc with
      remoteDescription := some sdp
      signalingState := .stable
      settingRemote := rest } : RTCPeerConnection V S A I).addIceCandidates ice =
    { pc with
      remoteDescription := some sdp
      signalingState := .stable
      settingRemote := []
      iceCandidates := candidates } := by
    simp [RTCPeerConnection.addIceCandidates, hrest, h.early hremote, hcandidates]
  rw [hadd]
  exact {
    answers_eq := by rw [hanswers]; rfl
    flushes := fun _ hentry => nomatch hentry
    one := h.one
    sent := h.sent
    early := fun hnone => nomatch hnone
    negotiating := h.negotiating
    server := h.server
    session := h.session
    watched := h.watched
    isOpen := by
      intro held hheld
      cases hheld
      exact ⟨List.append_nil _, fun _ => rfl, by simp⟩
    isClosed := fun hnone => nomatch hnone }

theorem push (h : Line pc (some ice) offered answers candidates)
    (hremote : pc.remoteDescription.isSome) (candidate : I) :
    Line (pc.addIceCandidates [candidate]) (some ice) offered answers
      (candidates ++ [candidate]) := by
  have hne : pc.remoteDescription ≠ none := Option.isSome_iff_ne_none.mp hremote
  obtain ⟨hcandidates, hheld, hstate⟩ := h.isOpen ice rfl
  rw [hheld hne, List.append_nil] at hcandidates
  have hstable : pc.signalingState = .stable := by
    rw [hstate, if_neg]
    simp [Option.isNone_iff_eq_none, hne]
  have hadd : pc.addIceCandidates [candidate] =
      { pc with iceCandidates := candidates ++ [candidate] } := by
    simp [RTCPeerConnection.addIceCandidates, hremote, hstable, hcandidates]
  rw [hadd, hheld hne]
  exact {
    answers_eq := h.answers_eq
    flushes := h.flushes
    one := h.one
    sent := h.sent
    early := fun hnone => absurd hnone hne
    negotiating := h.negotiating
    server := h.server
    session := h.session
    watched := h.watched
    isOpen := by
      intro held hnil
      cases hnil
      exact ⟨List.append_nil _, fun _ => rfl, hstate⟩
    isClosed := fun hnone => nomatch hnone }

theorem hold (h : Line pc (some ice) offered answers candidates)
    (hremote : pc.remoteDescription = none) (candidate : I) :
    Line pc (some (ice ++ [candidate])) offered answers (candidates ++ [candidate]) where
  answers_eq := h.answers_eq
  flushes := h.flushes
  one := h.one
  sent := h.sent
  early := h.early
  negotiating := h.negotiating
  server := h.server
  session := h.session
  watched := h.watched
  isOpen held hheld := by
    cases hheld
    obtain ⟨hcandidates, -, hstate⟩ := h.isOpen ice rfl
    refine ⟨?_, fun hne => absurd hremote hne, hstate⟩
    rw [← List.append_assoc, hcandidates]
  isClosed hnone := nomatch hnone

end Line

end FancyMumble.Interface.PeerConnections
