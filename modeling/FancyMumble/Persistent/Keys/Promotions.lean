import FancyMumble.Lib.Keyed
import FancyMumble.Persistent.Keys.Removal

/-!
# What a countersignature promotes

A countersignature signs the fingerprint of one key, and makes whatever key is stored for
its epoch verified. Nothing remembers the countersignatures that were accepted before.
-/

namespace FancyMumble.Persistent

open Lib Lib.Runs

deriving instance DecidableEq for Countersignature

namespace Countersignature

def slot (c : Countersignature) : UInt32 × UInt32 := (c.channelId, c.epoch)

def Fresh (c : Countersignature) (now : UInt64) : Prop :=
  now.toNat ≤ c.timestamp.toNat + countersigFreshnessMs.toNat

end Countersignature

namespace KeyManager

def epochEntry (km : KeyManager) (slot : UInt32 × UInt32) : Option (EpochKey × KeyTrustLevel) :=
  ((km.epochKeys slot.1).getD ∅).lookup slot.2

def SignatureValid (crypto : Crypto) (km : KeyManager) (c : Countersignature) : Prop :=
  ∃ peer sig, km.peerKeys c.signerHash = some peer ∧
    crypto.signatureFromSlice c.countersignature = .ok sig ∧
    crypto.verify peer.signingPublic
      (buildCountersigData c.channelId c.epoch c.epochFp c.parentFp c.timestamp
        c.distributorHash) sig = .ok ()

def Passes (crypto : Crypto) (now : UInt64) (km : KeyManager) (c : Countersignature)
    (keyCustodians : List String) : Prop :=
  km.verifyCountersignatureInternal crypto now c = .ok () ∧
    km.isTrustedAuthority c.signerHash c.channelId keyCustodians = true

instance (crypto : Crypto) (now : UInt64) (km : KeyManager) (c : Countersignature)
    (keyCustodians : List String) : Decidable (km.Passes crypto now c keyCustodians) :=
  inferInstanceAs (Decidable (_ ∧ _))

/-! ## The claims of a countersignature -/

/-- Between two states, a key that became verified did so by the countersignature: it is
that of its epoch and has the fingerprint that a trusted authority signed, just now. No
archive key became verified. -/
def PromotesOnlySigned (crypto : Crypto) (now : UInt64) (km km' : KeyManager)
    (c : Countersignature) (keyCustodians : List String) : Prop :=
  (∀ channelId, (km'.archiveKeys channelId).map Prod.snd = some .verified →
      (km.archiveKeys channelId).map Prod.snd = some .verified) ∧
    ∀ slot key, km'.epochEntry slot = some (key, .verified) →
      (km.epochEntry slot).map Prod.snd ≠ some .verified →
        slot = c.slot ∧ km.isTrustedAuthority c.signerHash c.channelId keyCustodians = true ∧
          km.SignatureValid crypto c ∧ c.Fresh now ∧
          crypto.epochFingerprint key.key.bytes = c.epochFp

variable {crypto : Crypto} {now : UInt64} {km : KeyManager} {c : Countersignature}
  {keyCustodians : List String}

theorem signatureValid_of_internal (h : km.verifyCountersignatureInternal crypto now c = .ok ()) :
    km.SignatureValid crypto c ∧ c.Fresh now := by
  unfold verifyCountersignatureInternal at h
  split at h
  · cases h
  rename_i hfresh
  split at h
  · cases h
  rename_i peer hpeer
  dsimp only at h
  split at h
  · cases h
  rename_i sig hsig
  split at h
  · cases h
  rename_i u hverify
  refine ⟨⟨peer, sig, hpeer, hsig, hverify⟩, ?_⟩
  rw [gt_iff_lt, UInt64.lt_iff_toNat_lt, Nat.not_lt, UInt64.toNat_add] at hfresh
  have hwrap := Nat.mod_le (countersigFreshnessMs.toNat + c.timestamp.toNat) (2 ^ 64)
  rw [Countersignature.Fresh]
  omega

theorem countersigned_of_passes (h : km.Passes crypto now c keyCustodians) :
    km.countersigned crypto now c keyCustodians = km.promoteEpochKey c.channelId c.epoch := by
  rw [countersigned, verifyCountersignature, h.1]
  simp only [h.2]
  rfl

theorem countersigned_of_not_passes (h : ¬km.Passes crypto now c keyCustodians) :
    km.countersigned crypto now c keyCustodians = km := by
  rw [countersigned, verifyCountersignature]
  cases hinternal : km.verifyCountersignatureInternal crypto now c with
  | error e => rfl
  | ok u =>
      have hnot : km.isTrustedAuthority c.signerHash c.channelId keyCustodians = false := by
        rw [← Bool.not_eq_true]
        exact fun htrusted => h ⟨hinternal, htrusted⟩
      simp only [hnot]
      rfl

theorem accepted_iff :
    (km.verifyCountersignature crypto now c keyCustodians).2 = .ok .verified ↔
      km.Passes crypto now c keyCustodians := by
  rw [verifyCountersignature, Passes]
  cases km.verifyCountersignatureInternal crypto now c with
  | error e => simp
  | ok u =>
      cases km.isTrustedAuthority c.signerHash c.channelId keyCustodians with
      | false => simp
      | true => simp

/-! ## What a promotion changes -/

theorem epochEntry_promoteEpochKey (km : KeyManager) (channelId epoch : UInt32)
    (slot : UInt32 × UInt32) :
    (km.promoteEpochKey channelId epoch).epochEntry slot =
      if slot = (channelId, epoch) then
        (km.epochEntry slot).map fun entry => (entry.1, .verified)
      else km.epochEntry slot := by
  obtain ⟨channelId', epoch'⟩ := slot
  by_cases hchannel : channelId' = channelId
  swap
  · have hother : (km.promoteEpochKey channelId epoch).epochKeys channelId' =
        km.epochKeys channelId' := by
      unfold promoteEpochKey
      cases km.epochKeys channelId with
      | none => rfl
      | some epochs =>
          dsimp only
          cases epochs.lookup epoch with
          | none => rfl
          | some entry => exact Function.update_of_ne hchannel _ _
    have hne : ¬(channelId', epoch') = (channelId, epoch) := fun h => hchannel (Prod.ext_iff.mp h).1
    rw [if_neg hne, epochEntry, epochEntry, hother]
  subst hchannel
  unfold promoteEpochKey epochEntry
  cases hepochs : km.epochKeys channelId' with
  | none =>
      dsimp only
      rw [hepochs]
      split <;> rfl
  | some epochs =>
      dsimp only
      cases hlookup : epochs.lookup epoch with
      | none =>
          dsimp only
          rw [hepochs, Option.getD_some]
          by_cases hepoch : epoch' = epoch
          · subst hepoch
            rw [if_pos rfl, hlookup]
            rfl
          · rw [if_neg fun h => hepoch (Prod.ext_iff.mp h).2]
      | some entry =>
          dsimp only
          rw [Function.update_self, Option.getD_some, Option.getD_some]
          rw [Keyed.lookup_replace]
          by_cases hepoch : epoch' = epoch
          · subst hepoch
            rw [if_pos rfl, if_pos rfl, hlookup]
            rfl
          · rw [if_neg hepoch, if_neg fun h => hepoch (Prod.ext_iff.mp h).2]

theorem promotesOnlySigned_self (crypto : Crypto) (now : UInt64) (km : KeyManager)
    (c : Countersignature) (keyCustodians : List String) :
    km.PromotesOnlySigned crypto now km c keyCustodians := by
  refine ⟨fun _ => id, fun slot key hafter hbefore => absurd ?_ hbefore⟩
  rw [hafter]
  rfl

theorem promotesOnlySigned_promote_iff (h : km.Passes crypto now c keyCustodians) :
    km.PromotesOnlySigned crypto now (km.promoteEpochKey c.channelId c.epoch) c keyCustodians ↔
      ∀ key trust, km.epochEntry c.slot = some (key, trust) →
        trust = .verified ∨ crypto.epochFingerprint key.key.bytes = c.epochFp := by
  constructor
  · rintro ⟨-, hpromotes⟩ key trust hentry
    have hslot : c.slot = (c.channelId, c.epoch) := rfl
    by_cases htrust : trust = .verified
    · exact .inl htrust
    · refine .inr (hpromotes c.slot key ?_ ?_).2.2.2.2
      · rw [epochEntry_promoteEpochKey, if_pos hslot, hentry]
        rfl
      · rw [hentry]
        exact fun hverified => htrust (Option.some.inj hverified)
  · intro hmatches
    refine ⟨fun channelId hverified => ?_, fun slot key hafter hbefore => ?_⟩
    · rwa [promoteEpochKey_eq] at hverified
    rw [epochEntry_promoteEpochKey] at hafter
    by_cases hslot : slot = (c.channelId, c.epoch)
    · rw [if_pos hslot, Option.map_eq_some_iff] at hafter
      obtain ⟨⟨key', trust⟩, hentry, hkey⟩ := hafter
      cases hkey
      subst hslot
      obtain ⟨hsignature, hfresh⟩ := signatureValid_of_internal h.1
      refine ⟨rfl, h.2, hsignature, hfresh, (hmatches key' trust hentry).resolve_left ?_⟩
      rintro rfl
      exact hbefore (by rw [hentry]; rfl)
    · rw [if_neg hslot] at hafter
      exact absurd (by rw [hafter]; rfl) hbefore

end KeyManager

/-! ## Runs -/

/-- A key manager, the countersignatures that it accepted, and those of them behind which
another key was stored for their epoch. -/
structure PromotionState where
  km : KeyManager
  accepted : List Countersignature := []
  spent : List Countersignature := []

namespace PromotionState

variable (toLowercase : String → String) (identity : Identity)

def storedSlot (km : KeyManager) : KeyOp → Option (UInt32 × UInt32)
  | .storeEpochKey channelId epoch _ _ => some (channelId, epoch)
  | .resolveEpochFork channelId epoch =>
      match (km.resolveEpochFork toLowercase identity.crypto channelId epoch).2 with
      | .ok (some _) => some (channelId, epoch)
      | _ => none
  | _ => none

def acceptedAfter (s : PromotionState) : KeyOp → List Countersignature
  | .verifyCountersignature now c keyCustodians =>
      if s.km.Passes identity.crypto now c keyCustodians then c :: s.accepted else s.accepted
  | _ => s.accepted

def step (s : PromotionState) (op : KeyOp) : PromotionState where
  km := s.km.apply toLowercase identity op
  accepted := s.acceptedAfter identity op
  spent :=
    match storedSlot toLowercase identity s.km op with
    | some slot => s.accepted.filter (·.slot = slot) ++ s.spent
    | none => s.spent

/-- A countersignature promotes only the key that it signs, and none that was stored after
it was accepted before; a rejected one changes nothing. An exchange promotes nothing, with
an inline countersignature as without one. -/
def Lawful (s : PromotionState) : KeyOp → Prop
  | .verifyCountersignature now c keyCustodians =>
      s.km.PromotesOnlySigned identity.crypto now
          (s.km.countersigned identity.crypto now c keyCustodians) c keyCustodians ∧
        ((s.km.verifyCountersignature identity.crypto now c keyCustodians).2 = .ok .verified →
          (s.km.epochEntry c.slot).isSome → c ∉ s.spent) ∧
        ((s.km.verifyCountersignature identity.crypto now c keyCustodians).2 ≠ .ok .verified →
          s.km.countersigned identity.crypto now c keyCustodians = s.km)
  | .receiveKeyExchange exchange requestTimestamp =>
      ∀ now c keyCustodians, KeyManager.inlineCountersignature exchange = some c →
        s.km.PromotesOnlySigned identity.crypto now
            (s.km.receiveKeyExchange identity.crypto exchange requestTimestamp).1 c
            keyCustodians ∧
          (s.km.checkInlineCountersignature identity.crypto now exchange ≠ some (.ok ()) →
            (s.km.receiveKeyExchange identity.crypto exchange requestTimestamp).1 =
              (s.km.receiveKeyExchange identity.crypto { exchange with countersignature := none }
                requestTimestamp).1)
  | _ => True

/-- A countersignature that passes meets the key that it signs, or one that is verified
already, and it was not accepted before that key was stored. -/
def MeetsSignedKey (s : PromotionState) : KeyOp → Prop
  | .verifyCountersignature now c keyCustodians =>
      s.km.Passes identity.crypto now c keyCustodians →
        ∀ key trust, s.km.epochEntry c.slot = some (key, trust) →
          (trust = .verified ∨ identity.crypto.epochFingerprint key.key.bytes = c.epochFp) ∧
            c ∉ s.spent
  | _ => True

variable {toLowercase identity} {s : PromotionState}

theorem promotesOnlySigned_receiveKeyExchange (crypto : Crypto) (now : UInt64) (km : KeyManager)
    (exchange : PchatKeyExchange) (requestTimestamp : Option UInt64) (c : Countersignature)
    (keyCustodians : List String) :
    km.PromotesOnlySigned crypto now (km.receiveKeyExchange crypto exchange requestTimestamp).1 c
      keyCustodians := by
  rcases km.receiveKeyExchange_cases crypto exchange requestTimestamp with
    ⟨-, e, hstep⟩ | ⟨key, -, ⟨requestId, -, hstep⟩ | ⟨-, hstep⟩⟩
  · rw [hstep]
    exact KeyManager.promotesOnlySigned_self crypto now km c keyCustodians
  · rw [hstep]
    exact KeyManager.promotesOnlySigned_self crypto now km c keyCustodians
  · rw [hstep]
    refine ⟨fun channelId hverified => ?_,
      (KeyManager.promotesOnlySigned_self crypto now km c keyCustodians).2⟩
    rw [KeyManager.storeArchiveKey_archiveKeys] at hverified
    by_cases hchannel : channelId = exchange.channelId
    · subst hchannel
      rw [Function.update_self] at hverified
      cases hverified
    · rwa [Function.update_of_ne hchannel] at hverified

theorem lawful_iff (op : KeyOp) : Lawful identity s op ↔ MeetsSignedKey identity s op := by
  cases op with
  | verifyCountersignature now c keyCustodians =>
      simp only [Lawful, MeetsSignedKey, ne_eq, KeyManager.accepted_iff]
      by_cases hpasses : s.km.Passes identity.crypto now c keyCustodians
      · rw [KeyManager.countersigned_of_passes hpasses,
          KeyManager.promotesOnlySigned_promote_iff hpasses]
        constructor
        · rintro ⟨hmatches, hnew, -⟩ - key trust hentry
          exact ⟨hmatches key trust hentry, hnew hpasses (by rw [hentry]; rfl)⟩
        · intro hmeets
          refine ⟨fun key trust hentry => (hmeets hpasses key trust hentry).1,
            fun _ hsome => ?_, fun hnot => absurd hpasses hnot⟩
          obtain ⟨⟨key, trust⟩, hentry⟩ := Option.isSome_iff_exists.mp hsome
          exact (hmeets hpasses key trust hentry).2
      · rw [KeyManager.countersigned_of_not_passes hpasses]
        exact iff_of_true
          ⟨KeyManager.promotesOnlySigned_self _ _ _ _ _, fun h => absurd h hpasses, fun _ => rfl⟩
          fun h => absurd h hpasses
  | receiveKeyExchange exchange requestTimestamp =>
      refine iff_of_true (fun now c keyCustodians _ => ⟨?_, fun _ => rfl⟩) trivial
      exact promotesOnlySigned_receiveKeyExchange _ _ _ _ _ _ _
  | _ => exact Iff.rfl

/-- In a run of a key manager, countersignatures promote only the keys that they sign, and
none twice, exactly if each that passes meets a key with its fingerprint, or a verified one,
that was not stored after it was accepted. -/
theorem countersignatures_run_iff (toLowercase : String → String) (identity : Identity)
    (s : PromotionState) (ops : List KeyOp) :
    Along (step toLowercase identity) (Lawful identity) s ops ↔
      Along (step toLowercase identity) (MeetsSignedKey identity) s ops :=
  along_congr fun _ op => lawful_iff op

section Example

private def originatorKnown : KeyManager where
  peerKeys := Function.update (fun _ => none) "anna"
    (some { algorithmVersion := 1, dhPublic := [], signingPublic := [], highestAnnounceTs := 0 })
  channelOriginators := Function.update (fun _ => none) 7 (some "anna")

private def signedByAnna : Countersignature where
  channelId := 7
  epoch := 3
  epochFp := List.replicate 8 1
  parentFp := List.replicate 8 0
  signerHash := "anna"
  distributorHash := "bert"
  timestamp := 1000
  countersignature := []

private def forkOfBert : EpochCandidate where
  senderHash := "bert"
  epochKey := { key := .replicate 2 }
  parentFingerprint := List.replicate 8 1
  epochFingerprint := List.replicate 8 2

/-- The countersignature of a key also verifies the winner of the fork that replaced it. -/
theorem replayed_countersignature_verifies_fork :
    ¬Along (step id Identity.plain) (Lawful Identity.plain) { km := originatorKnown }
      [.storeEpochKey 7 3 (.replicate 1) .unverified,
        .verifyCountersignature 2000 signedByAnna ["anna"],
        .setEpochCandidates 7 3 [forkOfBert], .resolveEpochFork 7 3,
        .verifyCountersignature 2000 signedByAnna ["anna"]] := by
  rw [countersignatures_run_iff]
  rintro ⟨-, -, -, -, hlast, -⟩
  obtain ⟨hkey, -⟩ := hlast (by decide +kernel) { key := .replicate 2 } .unverified
    (by decide +kernel)
  revert hkey
  decide +kernel

end Example

end PromotionState

end FancyMumble.Persistent
