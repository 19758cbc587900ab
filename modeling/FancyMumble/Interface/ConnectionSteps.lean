import FancyMumble.Interface.ConnectionSlots

/-!
# Steps of the peer connections

What the client does on its own keeps every connection in its slot, with what has come for it.
-/

namespace FancyMumble.Interface.PeerConnections

variable {V S A I : Type}

namespace Sound

variable {c : Client V S A I}

theorem congr {c' : Client V S A I} (h : Sound c) (hpcs : c'.pcs = c.pcs)
    (hslot : ∀ k, c'.slot k = c.slot k) (hmade : c'.made = c.made)
    (hoffered : c'.offered = c.offered) (hanswers : c'.answersFor = c.answersFor)
    (hcandidates : c'.candidatesFor = c.candidatesFor) : Sound c' where
  slots k entry hentry := by
    rw [hpcs]
    exact h.slots k entry (hslot k ▸ hentry)
  lines q pc hpc := by
    have hpending : c'.pending q = c.pending q := by
      unfold Client.pending
      simp only [hpcs, hslot]
    rw [hpending, hoffered, hanswers, hcandidates]
    exact h.lines q pc (hpcs ▸ hpc)
  fresh q hq := by
    rw [hpcs]
    exact h.fresh q (hmade ▸ hq)
  unmade q hq := by
    rw [hoffered, hanswers, hcandidates]
    exact h.unmade q (hpcs ▸ hq)

theorem start (snapshot : V) (ownSession : V → S) :
    Sound (start snapshot ownSession : Client V S A I) where
  slots k entry hslot := by
    cases k with
    | broadcasterPc => cases hslot
    | viewerPcs session => cases hslot
    | previewPc => cases hslot
  lines q pc hpc := absurd hpc nofun
  fresh q _ := rfl
  unmade q _ := ⟨rfl, rfl, rfl⟩

/-! ## Offering -/

theorem offerCreated (h : Sound c) (q : ℕ) : Sound (c.offerCreated q) := by
  refine h.of_modify_silent (fun pc => ?_) fun pc hpc => ?_
  · split
    · rfl
    · rfl
  · split
    next hcreate => exact (h.lines q pc hpc).negotiate hcreate _
    next => exact h.lines q pc hpc

theorem pending_of_not_closed (h : Sound c) {q : ℕ} {pc : RTCPeerConnection V S A I}
    (hpc : c.pcs q = some pc) (hstate : pc.signalingState ≠ .closed) :
    ∃ ice, c.pending q = some ice := by
  cases hpending : c.pending q with
  | some ice => exact ⟨ice, rfl⟩
  | none => exact absurd ((h.lines q pc hpc).isClosed hpending).1 hstate

theorem localDescriptionSet (h : Sound c) (q : ℕ) : Sound (c.localDescriptionSet q) := by
  unfold Client.localDescriptionSet
  cases hpc : c.pcs q with
  | none => exact h
  | some pc =>
      dsimp only
      split
      next hready =>
        obtain ⟨hset, hstate⟩ := Bool.and_eq_true_iff.mp hready
        have hset : pc.negotiation = .setLocalDescription := of_decide_eq_true hset
        obtain ⟨ice, hice⟩ := h.pending_of_not_closed hpc (bne_iff_ne.mp hstate)
        have hopen : c.isCurrent q pc.holder = true := by
          have hopen := c.isOpen_eq q
          rw [hice, Client.isOpen, hpc] at hopen
          exact hopen
        have hline := h.lines q pc hpc
        have hunsent : c.offered q = none := hline.negotiating (by rw [hset]; nofun)
        rw [hice, hunsent] at hline
        have hsound := h.of_modify hpc
          (f := fun pc => { pc with negotiation := .done, signalingState := .haveLocalOffer })
          (fun _ => rfl) (hice ▸ hline.offer c.snapshot c.ownSession)
        rw [if_pos hopen]
        simpa [Client.record, Client.modify] using hsound
      next => exact h

variable [DecidableEq S]

/-! ## Opening and closing -/

theorem closeSlot (h : Sound c) (k : Holder S) : Sound (c.closeSlot k) := by
  unfold Client.closeSlot
  cases hslot : c.slot k with
  | none =>
      refine h.congr (Client.pcs_setSlot ..) (fun k' => ?_) (Client.made_setSlot ..)
        (Client.offered_setSlot ..) (Client.answersFor_setSlot ..)
        (Client.candidatesFor_setSlot ..)
      rw [Client.slot_setSlot]
      split
      next hk => rw [hk, hslot]
      next => rfl
  | some entry =>
      obtain ⟨pc, hpc, -, hpending⟩ := h.inSlot hslot
      have hclosed : ∀ pc : RTCPeerConnection V S A I, pc.close.holder = pc.holder := fun _ => rfl
      exact h.of_slot_silent hslot hclosed none fun pc' hpc' _ =>
        (hpending ▸ h.lines entry.1 pc' hpc').close

theorem openSlot (h : Sound c) {k : Holder S} (hslot : c.slot k = none)
    (broadcasterSession : Option S) (serverId : Option V)
    (hsession : ∀ session, k = .viewerPcs session → broadcasterSession = some session) :
    Sound (c.openSlot k broadcasterSession serverId) := by
  have hnone : c.pcs c.made = none := h.fresh c.made le_rfl
  have hpcs : (c.openSlot k broadcasterSession serverId).pcs = Function.update c.pcs c.made
      (some { holder := k, broadcasterSession := broadcasterSession, serverId := serverId }) :=
    Client.pcs_setSlot ..
  have hslots : ∀ k', (c.openSlot k broadcasterSession serverId).slot k' =
      if k' = k then some (c.made, []) else c.slot k' := fun k' => Client.slot_setSlot ..
  have hmade : (c.openSlot k broadcasterSession serverId).made = c.made + 1 :=
    Client.made_setSlot ..
  have hoffered : (c.openSlot k broadcasterSession serverId).offered = c.offered :=
    Client.offered_setSlot ..
  have hanswers : (c.openSlot k broadcasterSession serverId).answersFor = c.answersFor :=
    Client.answersFor_setSlot ..
  have hcandidates : (c.openSlot k broadcasterSession serverId).candidatesFor = c.candidatesFor :=
    Client.candidatesFor_setSlot ..
  refine h.of_changed c.made (by omega) (fun k' entry hentry => ?_) (fun p hp => ?_) (by omega) ?_
  · rw [hslots] at hentry
    rw [hpcs]
    split at hentry
    next hk =>
      cases hentry
      exact ⟨_, Function.update_self .., hk.symm⟩
    next hk =>
      obtain ⟨pc, hpc, hholder⟩ := h.slots k' entry hentry
      have hne : entry.1 ≠ c.made := (h.lt_made hpc).ne
      exact ⟨pc, (Function.update_of_ne hne ..).trans hpc, hholder⟩
  · have hsame : (c.openSlot k broadcasterSession serverId).pcs p = c.pcs p := by
      rw [hpcs]
      exact Function.update_of_ne hp ..
    refine ⟨hsame, ?_, congrFun hoffered p, congrFun hanswers p, congrFun hcandidates p⟩
    unfold Client.pending
    rw [hsame]
    cases c.pcs p with
    | none => rfl
    | some pc =>
        rw [Option.bind_some, Option.bind_some, hslots]
        split
        next hk =>
          rw [hk, hslot]
          exact if_neg hp.symm
        next => rfl
  · have hself : (c.openSlot k broadcasterSession serverId).pcs c.made =
        some { holder := k, broadcasterSession := broadcasterSession, serverId := serverId } := by
      rw [hpcs]
      exact Function.update_self ..
    obtain ⟨hunsent, hunanswered, hunnamed⟩ := h.unmade c.made hnone
    have hpending : (c.openSlot k broadcasterSession serverId).pending c.made = some [] :=
      Client.pending_of_slot hself ((hslots k).trans (if_pos rfl))
    refine ⟨_, hself, ?_⟩
    rw [hpending, hoffered, hanswers, hcandidates, hunsent, hunanswered, hunnamed]
    exact .new k broadcasterSession serverId hsession

theorem startWatching (h : Sound c) (session : S) : Sound (c.startWatching session) := by
  cases hslot : c.slot (.viewerPcs session) with
  | some entry =>
      rw [Client.startWatching_of_some c hslot]
      exact h
  | none =>
      rw [Client.startWatching_eq c hslot]
      refine (h.closeSlot .previewPc).openSlot ?_ (some session) c.activeServerId ?_
      · rw [Client.slot_closeSlot, if_neg nofun, hslot]
      · rintro session' ⟨⟩
        rfl

/-! ## The answer is set -/

theorem remoteDescriptionSet (h : Sound c) (q : ℕ) : Sound (c.remoteDescriptionSet q) := by
  unfold Client.remoteDescriptionSet
  cases hpc : c.pcs q with
  | none => exact h
  | some pc =>
      dsimp only
      split
      next => exact h
      next => exact h
      next holder sdp rest hsetting hstate =>
        obtain ⟨ice, hice⟩ := h.pending_of_not_closed hpc (by rw [hstate]; nofun)
        obtain ⟨hholder, -⟩ := (h.lines q pc hpc).setting hsetting
        have hslot := Client.slot_of_pending hpc hice
        rw [← hholder] at hslot
        rw [Client.flushIce_eq, Client.flushSlot_modify hslot]
        refine h.of_slot_silent hslot (fun _ => by simp) (some []) fun pc' hpc' _ => ?_
        cases hpc.symm.trans hpc'
        exact (hice ▸ h.lines q pc hpc).setRemote hsetting
      next entry rest hsetting hstate =>
        -- no answer is being set on a connection that expects none
        obtain ⟨ice, hice⟩ := h.pending_of_not_closed hpc (by rw [hstate]; nofun)
        obtain ⟨-, -, hremote, hanswers⟩ := (h.lines q pc hpc).setting hsetting
        have hoffered : c.offered q ≠ none :=
          (h.lines q pc hpc).sent (by rw [hanswers]; nofun)
        obtain ⟨-, -, hopen⟩ := (h.lines q pc hpc).isOpen ice hice
        rw [hstate, hremote, Option.isSome_iff_ne_none.mpr hoffered] at hopen
        cases hopen

end Sound

end FancyMumble.Interface.PeerConnections
