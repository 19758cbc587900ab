import FancyMumble.Lib.Runs
import FancyMumble.Transport.Ocb2.CryptState

/-!
# Replay protection

Runs of one crypt state between two key set-ups: packets that were sealed under
some nonce, forged packets, and resyncs, in any order and any number. Packets
are identified by the full nonce they were sealed under.
-/

namespace FancyMumble.Transport.Ocb2

open Lib
open Lib.Runs (Along)

structure Inbound where
  state : Ocb2CryptState
  /-- The nonces of the accepted packets, the last one first. -/
  accepted : List Block

inductive InboundEvent where
  /-- A packet with the nonce it was sealed under, or none when it is forged. -/
  | deliver (data : List UInt8) (origin : Option Block)
  | resync (serverNonce : List UInt8)
deriving DecidableEq

namespace Inbound

def start (state : Ocb2CryptState) : Inbound := { state, accepted := [] }

def step (inbound : Inbound) : InboundEvent → Inbound
  | .deliver data origin =>
      match inbound.state.decrypt data with
      | (.ok _, state) => { state, accepted := origin.toList ++ inbound.accepted }
      | (.error _, state) => { inbound with state }
  | .resync serverNonce => { inbound with state := inbound.state.setDecryptIv serverNonce }

/-- The tag check passes exactly for the nonce a packet was sealed under. -/
def IdealTag (inbound : Inbound) : InboundEvent → Prop
  | .deliver (ivByte :: tag0 :: tag1 :: tag2 :: ciphertext) origin =>
      match Ocb2CryptState.stepNonce inbound.state.decryptIv ivByte with
      | none => True
      | some step =>
          Ocb2CryptState.TagMatches inbound.state.cipher step.iv tag0 tag1 tag2 ciphertext ↔
            origin = some step.iv
  | _ => True

/-- The server resyncs to a nonce not behind any accepted one. -/
def NotBehind (inbound : Inbound) : InboundEvent → Prop
  | .deliver _ _ => True
  | .resync serverNonce =>
      serverNonce.length = 16 → ∀ iv ∈ inbound.accepted, iv.leNat ≤ Bytes.leNat serverNonce

/-- The decrypt nonce does not wrap around from `2^128 - 1`. -/
def NoWrap (inbound : Inbound) (event : InboundEvent) : Prop :=
  match event with
  | .deliver _ _ =>
      inbound.state.decryptIv.leNat ≤ (inbound.step event).state.decryptIv.leNat
  | .resync _ => True

/-- A rejected packet leaves the nonces, the history and the statistics alone. -/
def RejectsCleanly (inbound : Inbound) (event : InboundEvent) : Prop :=
  match event with
  | .deliver data _ =>
      ∀ err, (inbound.state.decrypt data).1 = .error err → inbound.step event = inbound
  | .resync _ => True

instance (inbound : Inbound) : ∀ event, Decidable (inbound.IdealTag event)
  | .deliver (ivByte :: tag0 :: tag1 :: tag2 :: ciphertext) origin => by
      unfold IdealTag
      dsimp only
      split <;> infer_instance
  | .deliver [] _ | .deliver [_] _ | .deliver [_, _] _ | .deliver [_, _, _] _ | .resync _ =>
      inferInstanceAs (Decidable True)

instance (inbound : Inbound) : ∀ event, Decidable (inbound.NotBehind event)
  | .deliver _ _ => inferInstanceAs (Decidable True)
  | .resync serverNonce =>
      inferInstanceAs (Decidable (serverNonce.length = 16 → ∀ iv ∈ inbound.accepted, _))

instance (inbound : Inbound) : ∀ event, Decidable (inbound.NoWrap event)
  | .deliver _ _ => inferInstanceAs (Decidable (_ ≤ _))
  | .resync _ => inferInstanceAs (Decidable True)

/-! ## Single steps -/

theorem rejectsCleanly (inbound : Inbound) (event : InboundEvent) :
    inbound.RejectsCleanly event := by
  cases event with
  | resync serverNonce => trivial
  | deliver data origin =>
      intro err herr
      have hstate := Ocb2CryptState.decrypt_error herr
      rcases hresult : inbound.state.decrypt data with ⟨result, state⟩
      rw [hresult] at herr hstate
      simp only at herr hstate
      subst herr hstate
      simp only [step, hresult]

theorem step_deliver_cases {inbound : Inbound} {data : List UInt8} {origin : Option Block}
    (hideal : inbound.IdealTag (.deliver data origin)) :
    inbound.step (.deliver data origin) = inbound ∨
      ∃ ivByte next, Ocb2CryptState.stepNonce inbound.state.decryptIv ivByte = some next ∧
        inbound.state.decryptHistory (next.iv.byte 0) ≠ next.iv.byte 1 ∧
        inbound.step (.deliver data origin) =
          { state := inbound.state.accept next, accepted := next.iv :: inbound.accepted } := by
  rcases inbound.state.decrypt_cases data with
    ⟨err, herr⟩ | ⟨ivByte, tag0, tag1, tag2, ciphertext, next, rfl, hnext, hnew, htag, hok⟩
  · left
    simp only [step, herr]
  · right
    have horigin : origin = some next.iv := by
      simp only [IdealTag, hnext] at hideal
      exact hideal.mp htag
    subst horigin
    exact ⟨ivByte, next, hnext, hnew, by simp only [step, hok]; rfl⟩

/-! ## The invariant -/

/-- Every accepted nonce is behind the counter, and is either still in the history
or was overwritten by one at least 256 ahead of it. -/
structure Protected (inbound : Inbound) : Prop where
  nodup : inbound.accepted.Nodup
  bound : ∀ iv ∈ inbound.accepted, iv.leNat ≤ inbound.state.decryptIv.leNat
  recorded : ∀ iv ∈ inbound.accepted,
    inbound.state.decryptHistory (iv.byte 0) = iv.byte 1 ∨
      ∃ later ∈ inbound.accepted, iv.leNat + 256 ≤ later.leNat

theorem protected_start (state : Ocb2CryptState) : Protected (start state) :=
  ⟨List.nodup_nil, by simp [start], by simp [start]⟩

theorem accept_bounds {state : Ocb2CryptState} {ivByte : UInt8} {next : Ocb2CryptState.NonceStep}
    (hnext : Ocb2CryptState.stepNonce state.decryptIv ivByte = some next)
    (hwrap : state.decryptIv.leNat ≤ (state.accept next).decryptIv.leNat) :
    state.decryptIv.leNat < next.iv.leNat + 30 ∧
      next.iv.leNat ≤ (state.accept next).decryptIv.leNat := by
  have hlt := state.decryptIv.leNat_lt
  obtain ⟨-, ⟨hrestore, hvalue⟩ | ⟨hrestore, hlate, hwindow⟩ | ⟨hrestore, hskip, hwindow⟩⟩ :=
    Ocb2CryptState.stepNonce_cases hnext
  · simp only [Ocb2CryptState.accept, hrestore, Bool.false_eq_true, if_false] at hwrap ⊢
    omega
  · simp only [Ocb2CryptState.accept, hrestore, if_true] at hwrap ⊢
    omega
  · simp only [Ocb2CryptState.accept, hrestore, Bool.false_eq_true, if_false] at hwrap ⊢
    omega

theorem eq_of_byte_zero_eq {a b : Block} (h : a.byte 0 = b.byte 0) :
    a.leNat % 256 = b.leNat % 256 := by
  rw [← Block.toNat_byte_zero, ← Block.toNat_byte_zero, h]

theorem protected_accept {inbound : Inbound} (h : Protected inbound) {ivByte : UInt8}
    {next : Ocb2CryptState.NonceStep}
    (hnext : Ocb2CryptState.stepNonce inbound.state.decryptIv ivByte = some next)
    (hnew : inbound.state.decryptHistory (next.iv.byte 0) ≠ next.iv.byte 1)
    (hwrap : inbound.state.decryptIv.leNat ≤ (inbound.state.accept next).decryptIv.leNat) :
    Protected { state := inbound.state.accept next, accepted := next.iv :: inbound.accepted } := by
  obtain ⟨hnear, hbound⟩ := accept_bounds hnext hwrap
  have hfresh : next.iv ∉ inbound.accepted := by
    intro hmem
    rcases h.recorded _ hmem with hseen | ⟨later, hlater, hahead⟩
    · exact hnew hseen
    · have := h.bound later hlater
      omega
  refine ⟨List.nodup_cons.mpr ⟨hfresh, h.nodup⟩, ?_, ?_⟩
  · intro iv hiv
    rcases List.mem_cons.mp hiv with rfl | hold
    · exact hbound
    · exact (h.bound iv hold).trans hwrap
  · intro iv hiv
    simp only [Ocb2CryptState.accept]
    rcases List.mem_cons.mp hiv with rfl | hold
    · left
      rw [Function.update_self]
    · by_cases hsame : iv.byte 0 = next.iv.byte 0
      · -- the entry is overwritten, by a nonce that is then a multiple of 256 ahead
        right
        refine ⟨next.iv, List.mem_cons_self, ?_⟩
        have hmod := eq_of_byte_zero_eq hsame
        have hne : iv.leNat ≠ next.iv.leNat := fun heq => hfresh (Block.leNat_inj heq ▸ hold)
        have := h.bound iv hold
        omega
      · rw [Function.update_of_ne hsame]
        exact (h.recorded iv hold).imp_right fun ⟨later, hlater, hahead⟩ =>
          ⟨later, List.mem_cons_of_mem _ hlater, hahead⟩

theorem protected_step {inbound : Inbound} {event : InboundEvent} (h : Protected inbound)
    (hideal : inbound.IdealTag event) (hbehind : inbound.NotBehind event)
    (hwrap : inbound.NoWrap event) : Protected (inbound.step event) := by
  cases event with
  | deliver data origin =>
      rcases step_deliver_cases hideal with hsame | ⟨ivByte, next, hnext, hnew, hstep⟩
      · rw [hsame]
        exact h
      · simp only [NoWrap, hstep] at hwrap
        rw [hstep]
        exact protected_accept h hnext hnew hwrap
  | resync serverNonce =>
      simp only [step, Ocb2CryptState.setDecryptIv, Block.ofBytes?]
      by_cases hlength : serverNonce.length = 16
      · rw [dif_pos hlength]
        exact ⟨h.nodup, hbehind hlength, h.recorded⟩
      · rw [dif_neg hlength]
        exact h

/-! ## Whole runs -/

/-- What has been accepted stays in the history of the receiver. -/
theorem protected_run {inbound : Inbound} (h : Protected inbound) {events : List InboundEvent}
    (hideal : Along step IdealTag inbound events) (hbehind : Along step NotBehind inbound events)
    (hwrap : Along step NoWrap inbound events) : Protected (Runs.run step inbound events) := by
  refine Runs.invariant_run ?_ h
    (Runs.along_and.mpr ⟨hideal, Runs.along_and.mpr ⟨hbehind, hwrap⟩⟩)
  exact fun _ _ h ⟨hideal, hbehind, hwrap⟩ => protected_step h hideal hbehind hwrap

theorem rejectsCleanly_run (state : Ocb2CryptState) (events : List InboundEvent) :
    Along step RejectsCleanly (start state) events :=
  Runs.along_of_forall rejectsCleanly _ _

/-- No packet is accepted twice as long as the counter does not wrap. Rejected
packets change nothing, in any run. -/
theorem accepted_at_most_once (state : Ocb2CryptState) (events : List InboundEvent) :
    (Along step IdealTag (start state) events → Along step NotBehind (start state) events →
      Along step NoWrap (start state) events →
      (Runs.run step (start state) events).accepted.Nodup) ∧
      Along step RejectsCleanly (start state) events := by
  refine ⟨fun hideal hbehind hwrap => ?_, rejectsCleanly_run state events⟩
  exact (protected_run (protected_start state) hideal hbehind hwrap).nodup

section Example

def exampleState : Ocb2CryptState :=
  (Ocb2CryptState.new fun _ => Equiv.refl Block).install (fun _ => Equiv.refl Block)
    Block.zero Block.zero Block.zero

theorem setKey_exampleState :
    (Ocb2CryptState.new fun _ => Equiv.refl Block).setKey (fun _ => Equiv.refl Block)
      Block.zero.bytes Block.zero.bytes Block.zero.bytes = .ok exampleState :=
  Ocb2CryptState.setKey_eq_ok_iff.mpr ⟨_, _, _, rfl, rfl, rfl, rfl⟩

def authentic (n : Nat) : InboundEvent :=
  .deliver (Ocb2CryptState.sealPacket (Equiv.refl Block) (Block.ofLeNat n) [])
    (some (Block.ofLeNat n))

/-- A packet, a forgery, a resync, a packet after it, and both packets once more. -/
def replayed : List InboundEvent :=
  [authentic 1, .deliver [2, 0, 0, 0] none, .resync (Block.ofLeNat 300).bytes, authentic 301,
    authentic 301, authentic 1]

theorem accepted_at_most_once_example :
    (Runs.run step (start exampleState) replayed).accepted = [Block.ofLeNat 301, Block.ofLeNat 1] ∧
      (Runs.run step (start exampleState) replayed).accepted.Nodup ∧
      Along step RejectsCleanly (start exampleState) replayed :=
  ⟨by decide +kernel,
    (accepted_at_most_once exampleState replayed).1 (by decide +kernel) (by decide +kernel)
      (by decide +kernel),
    (accepted_at_most_once exampleState replayed).2⟩

/-- Resyncs up to the last nonce and a wrap of the counter clear the way for the
first packet of the run. -/
def wrapAround : List InboundEvent :=
  [authentic 1, .resync (Block.ofLeNat (2 ^ 128 - 256)).bytes, authentic (2 ^ 128 - 255),
    .resync (Block.ofLeNat (2 ^ 128 - 1)).bytes, authentic 0, authentic 1]

theorem accepts_twice_after_wrap :
    ¬ ∀ (aes : Aes128) (self state : Ocb2CryptState) (key clientNonce serverNonce : List UInt8)
      (events : List InboundEvent), self.setKey aes key clientNonce serverNonce = .ok state →
      Along step IdealTag (start state) events → Along step NotBehind (start state) events →
      (Runs.run step (start state) events).accepted.Nodup ∧
        Along step RejectsCleanly (start state) events := by
  intro h
  have hideal : Along step IdealTag (start exampleState) wrapAround := by decide +kernel
  have hbehind : Along step NotBehind (start exampleState) wrapAround := by decide +kernel
  have hnodup := (h _ _ _ _ _ _ wrapAround setKey_exampleState hideal hbehind).1
  revert hnodup
  decide +kernel

end Example

end Inbound

end FancyMumble.Transport.Ocb2
