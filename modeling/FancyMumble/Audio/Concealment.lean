import FancyMumble.Error
import FancyMumble.Lib.Outcome
import FancyMumble.Lib.Runs
import Mathlib.Logic.Function.Iterate

/-!
# Concealment of lost packets

The inbound pipeline learns by how much the sender's numbers grow from the first two that do,
and conceals as many frames as the step goes into the gap before a packet, three at most. A
loss between those two, or a late packet, makes it count wrong from then on.
-/

namespace FancyMumble.Audio

open Lib Lib.Outcome Lib.Runs

/-! ## The pipeline -/

/-- `detect_sequence_gap`: how many frames to conceal, and the step that is known then. -/
def detectSequenceGap (lastSeq currentStep : Option UInt64) (incomingSeq : UInt64) :
    Outcome Error (Option UInt64 × Option UInt64) :=
  match lastSeq with
  | none => pure (none, currentStep)
  | some prev =>
      match currentStep with
      | some step =>
          if step = 0 then pure (none, currentStep)
          else do
            let expected ← checkedAdd prev step
            if incomingSeq > expected then
              let lost := (incomingSeq - expected) / step
              pure (some (if lost ≤ 3 then lost else 3), currentStep)
            else pure (none, currentStep)
      | none =>
          if incomingSeq > prev then pure (none, some (incomingSeq - prev))
          else pure (none, none)

theorem detectSequenceGap_some {lastSeq gap seqStep : Option UInt64} {step incomingSeq : UInt64}
    (h : detectSequenceGap lastSeq (some step) incomingSeq = .ok (gap, seqStep)) :
    seqStep = some step := by
  rw [detectSequenceGap.eq_def] at h
  cases lastSeq with
  | none =>
      cases h
      rfl
  | some prev =>
      dsimp only at h
      by_cases hzero : step = 0
      · rw [if_pos hzero] at h
        cases h
        rfl
      · rw [if_neg hzero, bind_eq_ok_iff] at h
        obtain ⟨expected, -, hlost⟩ := h
        split at hlost
        · cases hlost
          rfl
        · cases hlost
          rfl

theorem detectSequenceGap_none (prev incomingSeq : UInt64) :
    detectSequenceGap (some prev) none incomingSeq =
      .ok (none, if incomingSeq > prev then some (incomingSeq - prev) else none) := by
  rw [detectSequenceGap.eq_def]
  dsimp only
  split
  · rfl
  · rfl

/-- The decoder, the filters, the crossfade and the playback: what they make of a lost packet
and of one that arrived. -/
structure Stages (δ : Type) where
  tickLost : δ → Except Error Unit × δ
  decode : UInt64 → δ → Except Error Unit × δ

structure InboundPipeline (δ : Type) where
  stages : δ
  lastSeq : Option UInt64 := none
  seqStep : Option UInt64 := none

namespace InboundPipeline

variable {δ : Type} (run : Stages δ)

def concealed (self : InboundPipeline δ) (sequence : UInt64) : Outcome Error Nat := do
  let (gap, _) ← detectSequenceGap self.lastSeq self.seqStep sequence
  pure (gap.getD 0).toNat

def tick (self : InboundPipeline δ) (sequence : UInt64) :
    Outcome Error (Except Error Unit × InboundPipeline δ) := do
  let (gap, seqStep) ← detectSequenceGap self.lastSeq self.seqStep sequence
  let stages := (fun stages => (run.tickLost stages).2)^[(gap.getD 0).toNat] self.stages
  let (result, stages) := run.decode sequence stages
  pure (result, { stages, lastSeq := some sequence, seqStep })

def after (self : InboundPipeline δ) (sequence : UInt64) : InboundPipeline δ :=
  match self.tick run sequence with
  | .ok (_, next) => next
  | _ => self

variable {run} {self next : InboundPipeline δ} {sequence : UInt64}

theorem tick_of_concealed (run : Stages δ) {count : Nat} (h : self.concealed sequence = .ok count) :
    ∃ seqStep, detectSequenceGap self.lastSeq self.seqStep sequence = .ok seqStep ∧
      self.tick run sequence =
        .ok ((run.decode sequence
            ((fun stages => (run.tickLost stages).2)^[count] self.stages)).1,
          { stages := (run.decode sequence
              ((fun stages => (run.tickLost stages).2)^[count] self.stages)).2
            lastSeq := some sequence
            seqStep := seqStep.2 }) := by
  rw [concealed, bind_eq_ok_iff] at h
  obtain ⟨⟨gap, seqStep⟩, hgap, hcount⟩ := h
  refine ⟨(gap, seqStep), hgap, ?_⟩
  cases hcount
  rw [tick, hgap, ok_bind]
  rfl

end InboundPipeline

/-! ## A sender -/

/-- A sender whose numbers grow by a constant step. -/
structure ConstantSender where
  base : Nat
  step : Nat
  step_pos : 0 < step

/-- A packet of the sender: its place among all that it sent. -/
structure Packet (sender : ConstantSender) where
  index : Nat
  fits : sender.base + index * sender.step < 2 ^ 64

namespace ConstantSender

def number (sender : ConstantSender) (packet : Packet sender) : UInt64 :=
  UInt64.ofNat (sender.base + packet.index * sender.step)

/-- What the packets that were delivered come to: the last one, the furthest one, and by how
many places the numbers first grew. -/
structure Heard where
  last : Nat
  furthest : Nat
  grew : Option Nat := none

def hear (heard : Option Heard) (index : Nat) : Heard :=
  match heard with
  | none => { last := index, furthest := index }
  | some h =>
      { last := index
        furthest := max h.furthest index
        grew := h.grew.or (if h.last < index then some (index - h.last) else none) }

/-- The packets that are lost before one, three at most: those between it and the furthest
before it. -/
def lostBefore (heard : Option Heard) (index : Nat) : Nat :=
  match heard with
  | none => 0
  | some h => min (index - h.furthest - 1) 3

structure Listener (δ : Type) where
  pipeline : InboundPipeline δ
  heard : Option Heard := none

variable {δ : Type} {sender : ConstantSender} (run : Stages δ)

def deliver (s : Listener δ) (packet : Packet sender) : Listener δ where
  pipeline := s.pipeline.after run (sender.number packet)
  heard := some (hear s.heard packet.index)

/-- Nothing overflows, and just the lost packets are concealed. -/
def ConcealsLost (s : Listener δ) (packet : Packet sender) : Prop :=
  s.pipeline.concealed (sender.number packet) = .ok (lostBefore s.heard packet.index)

/-- Until the numbers grow, the packet is the next one or an old one. After that, the step
that was learned still fits after the last packet; the next one or an old one comes before two
steps have passed since then, and a later one is as many steps from the last packet as places
from the furthest one, up to four. -/
def CountsRight (s : Listener δ) (packet : Packet sender) : Prop :=
  match s.heard with
  | none => True
  | some h =>
      match h.grew with
      | none => packet.index ≤ h.furthest + 1
      | some grew =>
          sender.base + (h.last + grew) * sender.step < 2 ^ 64 ∧
            if packet.index ≤ h.furthest + 1 then packet.index < h.last + 2 * grew
            else min ((packet.index - h.last) / grew) 4 = min (packet.index - h.furthest) 4

def Tracks (sender : ConstantSender) (s : Listener δ) : Prop :=
  match s.heard with
  | none => s.pipeline.lastSeq = none ∧ s.pipeline.seqStep = none
  | some h =>
      h.last ≤ h.furthest ∧
        (∃ packet : Packet sender, packet.index = h.last ∧
          s.pipeline.lastSeq = some (sender.number packet)) ∧
        match h.grew with
        | none => s.pipeline.seqStep = none
        | some grew => 0 < grew ∧ grew * sender.step < 2 ^ 64 ∧
            s.pipeline.seqStep = some (UInt64.ofNat (grew * sender.step))

/-! ## What the pipeline counts -/

theorem toNat_number (packet : Packet sender) :
    (sender.number packet).toNat = sender.base + packet.index * sender.step :=
  UInt64.toNat_ofNat_of_lt packet.fits

theorem number_lt_number_iff {a b : Packet sender} :
    sender.number a < sender.number b ↔ a.index < b.index := by
  rw [UInt64.lt_iff_toNat_lt, toNat_number, toNat_number, Nat.add_lt_add_iff_left]
  exact Nat.mul_lt_mul_right sender.step_pos

theorem number_sub_number {a b : Packet sender} (h : a.index < b.index) :
    (b.index - a.index) * sender.step < 2 ^ 64 ∧
      sender.number b - sender.number a = UInt64.ofNat ((b.index - a.index) * sender.step) := by
  have hle : sender.number a ≤ sender.number b :=
    UInt64.le_iff_toNat_le.mpr (Nat.le_of_lt (number_lt_number_iff.mpr h))
  have hfits : (b.index - a.index) * sender.step < 2 ^ 64 := by
    have hsub := Nat.mul_le_mul_right sender.step (Nat.sub_le b.index a.index)
    have hb := b.fits
    omega
  refine ⟨hfits, UInt64.toNat_inj.mp ?_⟩
  rw [UInt64.toNat_sub_of_le _ _ hle, toNat_number, toNat_number,
    UInt64.toNat_ofNat_of_lt' hfits, Nat.add_sub_add_left, Nat.sub_mul]

theorem checkedAdd_number {last grew : Nat} {packet : Packet sender} (hlast : packet.index = last)
    (hfits : grew * sender.step < 2 ^ 64) :
    (checkedAdd (sender.number packet) (UInt64.ofNat (grew * sender.step)) :
        Outcome Error UInt64) =
      if sender.base + (last + grew) * sender.step < 2 ^ 64 then
        .ok (UInt64.ofNat (sender.base + (last + grew) * sender.step))
      else .panicked := by
  have hsum : (sender.number packet).toNat + (UInt64.ofNat (grew * sender.step)).toNat =
      sender.base + (last + grew) * sender.step := by
    rw [toNat_number, UInt64.toNat_ofNat_of_lt' hfits, hlast, Nat.add_mul, Nat.add_assoc]
  rw [checkedAdd, hsum]
  by_cases h : sender.base + (last + grew) * sender.step < 2 ^ 64
  · rw [if_pos h, if_pos h]
    congr 1
    apply UInt64.toNat_inj.mp
    rw [UInt64.toNat_add, hsum, UInt64.toNat_ofNat_of_lt' h, Nat.mod_eq_of_lt h]
  · rw [if_neg h, if_neg h]

theorem toNat_lost {last grew : Nat} {packet : Packet sender} (hgrew : 0 < grew)
    (hstep : grew * sender.step < 2 ^ 64) (hindex : last + grew < packet.index)
    (hfits : sender.base + (last + grew) * sender.step < 2 ^ 64) :
    ((sender.number packet - UInt64.ofNat (sender.base + (last + grew) * sender.step)) /
        UInt64.ofNat (grew * sender.step)).toNat = (packet.index - last) / grew - 1 := by
  let expected : Packet sender := ⟨last + grew, hfits⟩
  obtain ⟨hfit, hsub⟩ := number_sub_number (a := expected) (b := packet) hindex
  have hexpected : UInt64.ofNat (sender.base + (last + grew) * sender.step) =
      sender.number expected := rfl
  rw [hexpected, hsub, UInt64.toNat_div, UInt64.toNat_ofNat_of_lt' hfit,
    UInt64.toNat_ofNat_of_lt' hstep, Nat.mul_div_mul_right _ _ sender.step_pos,
    ← Nat.sub_sub, Nat.div_eq_sub_div hgrew (by omega : grew ≤ packet.index - last),
    Nat.add_sub_cancel]

theorem concealed_of_step {pipeline : InboundPipeline δ} {last grew : Nat}
    {prev : Packet sender} (hprev : prev.index = last)
    (hlast : pipeline.lastSeq = some (sender.number prev)) (hgrew : 0 < grew)
    (hstep : grew * sender.step < 2 ^ 64)
    (hknown : pipeline.seqStep = some (UInt64.ofNat (grew * sender.step)))
    (packet : Packet sender) :
    pipeline.concealed (sender.number packet) =
      if sender.base + (last + grew) * sender.step < 2 ^ 64 then
        .ok (min ((packet.index - last) / grew) 4 - 1)
      else .panicked := by
  have hnonzero : UInt64.ofNat (grew * sender.step) ≠ 0 := by
    intro hzero
    have := congrArg UInt64.toNat hzero
    rw [UInt64.toNat_ofNat_of_lt' hstep] at this
    exact Nat.ne_of_gt (Nat.mul_pos hgrew sender.step_pos) this
  rw [InboundPipeline.concealed, detectSequenceGap.eq_def, hlast, hknown]
  dsimp only
  rw [if_neg hnonzero, checkedAdd_number hprev hstep]
  by_cases hfits : sender.base + (last + grew) * sender.step < 2 ^ 64
  · rw [if_pos hfits, if_pos hfits, ok_bind]
    have hbeyond : sender.number packet > UInt64.ofNat (sender.base + (last + grew) * sender.step) ↔
        last + grew < packet.index :=
      number_lt_number_iff (a := ⟨last + grew, hfits⟩)
    by_cases hindex : last + grew < packet.index
    · have hlost := toNat_lost hgrew hstep hindex hfits
      rw [if_pos (hbeyond.mpr hindex), pure_eq, ok_bind, pure_eq]
      dsimp only [Option.getD_some]
      split
      · rename_i hle
        rw [UInt64.le_iff_toNat_le, hlost] at hle
        rw [hlost]
        congr 1
        change _ ≤ 3 at hle
        omega
      · rename_i hgt
        rw [UInt64.le_iff_toNat_le, hlost] at hgt
        change ¬_ ≤ 3 at hgt
        congr 1
        change 3 = _
        omega
    · have hnone : (packet.index - last) / grew ≤ 1 :=
        Nat.le_of_lt_succ (Nat.div_lt_of_lt_mul (by omega))
      rw [if_neg (mt hbeyond.mp hindex), pure_eq, ok_bind, pure_eq]
      congr 1
      change 0 = _
      omega
  · rw [if_neg hfits, if_neg hfits]
    rfl

theorem concealed_of_seqStep_eq_none {pipeline : InboundPipeline δ} (h : pipeline.seqStep = none)
    (sequence : UInt64) : pipeline.concealed sequence = .ok 0 := by
  rw [InboundPipeline.concealed, h]
  cases hlast : pipeline.lastSeq with
  | none => rfl
  | some prev =>
      rw [detectSequenceGap_none]
      rfl

theorem concealsLost_iff {s : Listener δ} (h : Tracks sender s) (packet : Packet sender) :
    ConcealsLost s packet ↔ CountsRight s packet := by
  rw [ConcealsLost]
  cases hheard : s.heard with
  | none =>
      simp only [Tracks, hheard] at h
      rw [concealed_of_seqStep_eq_none h.2]
      simp only [CountsRight, hheard, lostBefore]
  | some heard =>
      simp only [Tracks, hheard] at h
      obtain ⟨hle, ⟨prev, hprev, hlast⟩, hstep⟩ := h
      cases hgrew : heard.grew with
      | none =>
          rw [hgrew] at hstep
          rw [concealed_of_seqStep_eq_none hstep]
          simp only [CountsRight, hheard, hgrew, lostBefore, Outcome.ok.injEq]
          omega
      | some grew =>
          rw [hgrew] at hstep
          obtain ⟨hpos, hfits, hknown⟩ := hstep
          rw [concealed_of_step hprev hlast hpos hfits hknown]
          simp only [CountsRight, hheard, hgrew, lostBefore]
          by_cases hsum : sender.base + (heard.last + grew) * sender.step < 2 ^ 64
          · rw [if_pos hsum, and_iff_right hsum, Outcome.ok.injEq]
            by_cases hnew : packet.index ≤ heard.furthest + 1
            · have hdiv : (packet.index - heard.last) / grew < 2 ↔
                  packet.index - heard.last < 2 * grew := Nat.div_lt_iff_lt_mul hpos
              rw [if_pos hnew]
              omega
            · rw [if_neg hnew]
              omega
          · rw [if_neg hsum]
            exact iff_of_false nofun fun h => hsum h.1

theorem tracks_deliver {s : Listener δ} (h : Tracks sender s) {packet : Packet sender}
    (hcounts : CountsRight s packet) : Tracks sender (deliver run s packet) := by
  obtain ⟨⟨gap, seqStep⟩, hgap, htick⟩ :=
    InboundPipeline.tick_of_concealed run ((concealsLost_iff h packet).mpr hcounts)
  have hafter : (s.pipeline.after run (sender.number packet)).lastSeq =
        some (sender.number packet) ∧
      (s.pipeline.after run (sender.number packet)).seqStep = seqStep := by
    rw [InboundPipeline.after, htick]
    exact ⟨rfl, rfl⟩
  cases hheard : s.heard with
  | none =>
      simp only [Tracks, hheard] at h
      rw [h.1, h.2] at hgap
      cases hgap
      simp only [Tracks, deliver, hear, hheard]
      exact ⟨Nat.le_refl _, ⟨packet, rfl, hafter.1⟩, hafter.2⟩
  | some heard =>
      simp only [Tracks, hheard] at h
      obtain ⟨hle, ⟨prev, hprev, hlast⟩, hstep⟩ := h
      simp only [Tracks, deliver, hear, hheard]
      refine ⟨Nat.le_max_right _ _, ⟨packet, rfl, hafter.1⟩, ?_⟩
      rw [hafter.2]
      cases hgrew : heard.grew with
      | none =>
          rw [hgrew] at hstep
          rw [hlast, hstep, detectSequenceGap_none] at hgap
          cases hgap
          by_cases hgrows : heard.last < packet.index
          · obtain ⟨hfits, hsub⟩ := number_sub_number (a := prev) (b := packet) (by rwa [hprev])
            rw [hprev] at hfits hsub
            rw [if_pos hgrows, if_pos (number_lt_number_iff.mpr (by rwa [hprev]))]
            exact ⟨Nat.sub_pos_of_lt hgrows, hfits, congrArg some hsub⟩
          · rw [if_neg hgrows, if_neg fun hlt => hgrows (hprev ▸ number_lt_number_iff.mp hlt)]
            rfl
      | some grew =>
          rw [hgrew] at hstep
          rw [hstep.2.2] at hgap
          exact ⟨hstep.1, hstep.2.1, detectSequenceGap_some hgap⟩

/-! ## Runs -/

/-- Nothing overflows, and in every run just the lost packets are concealed, three at most,
exactly if the numbers first grow by one place and a step fits after every number, or the steps
come to the places anyway. -/
theorem conceals_run_iff (run : Stages δ) (sender : ConstantSender) (stages : δ)
    (packets : List (Packet sender)) :
    Along (deliver run) ConcealsLost { pipeline := { stages } } packets ↔
      Along (deliver run) CountsRight { pipeline := { stages } } packets :=
  along_iff_of_invariant (fun _ packet (hs : Tracks sender _) => concealsLost_iff hs packet)
    (fun _ _ hs hcounts => tracks_deliver run hs hcounts) ⟨rfl, rfl⟩

/-- The second packet of three is lost, and the third conceals nothing. -/
theorem early_loss_is_not_concealed :
    ¬Along (deliver (δ := Unit) ⟨fun _ => (.ok (), ()), fun _ _ => (.ok (), ())⟩) ConcealsLost
      { pipeline := { stages := () } }
      [(⟨0, by decide⟩ : Packet ⟨0, 1, Nat.one_pos⟩), ⟨2, by decide⟩] := by
  rw [conceals_run_iff]
  rintro ⟨-, hsecond, -⟩
  have hnext : 2 ≤ 0 + 1 := hsecond
  exact absurd hnext (by decide)


end ConstantSender

end FancyMumble.Audio
