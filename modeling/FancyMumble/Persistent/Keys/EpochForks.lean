import FancyMumble.Lib.Choice
import FancyMumble.Persistent.Keys.Exchange
import Mathlib.Data.String.Basic

/-!
# Epoch forks

Several members can send a key for the same epoch of a channel. The candidates that
continue the current epoch are compared by the lower-cased certificate hash of their
sender, and the smallest one becomes the key of the epoch. The lower-casing of strings is
a parameter.
-/

namespace FancyMumble.Persistent

open Lib.Choice Lib.Grouping

namespace KeyManager

/-! ## Epoch keys -/

def insertEpochKey (km : KeyManager) (channelId epoch : UInt32) (key : EpochKey)
    (trust : KeyTrustLevel) : KeyManager :=
  { km with
    epochKeys := Function.update km.epochKeys channelId
      (some (((km.epochKeys channelId).getD ∅).insert epoch (key, trust))) }

def storeEpochKey (km : KeyManager) (channelId epoch : UInt32) (key : ChannelKey)
    (trust : KeyTrustLevel) : KeyManager :=
  km.insertEpochKey channelId epoch { key } trust

def epochKey (km : KeyManager) (channelId epoch : UInt32) : Option EpochKey :=
  (((km.epochKeys channelId).getD ∅).lookup epoch).map Prod.fst

@[simp] theorem epochKey_insertEpochKey (km : KeyManager) (channelId epoch : UInt32)
    (key : EpochKey) (trust : KeyTrustLevel) :
    (km.insertEpochKey channelId epoch key trust).epochKey channelId epoch = some key := by
  simp [epochKey, insertEpochKey]

def currentEpochFingerprint (crypto : Crypto) (km : KeyManager) (channelId : UInt32) :
    Option (List UInt8) :=
  (km.epochKeys channelId).bind fun epochs =>
    (maxByKey (fun entry => entry.1.toNat) epochs.entries).map fun entry =>
      crypto.epochFingerprint entry.2.1.key.bytes

/-! ## Fork resolution -/

def setEpochCandidates (km : KeyManager) (channelId epoch : UInt32)
    (candidates : List EpochCandidate) : KeyManager :=
  { km with
    pendingEpochCandidates :=
      Function.update km.pendingEpochCandidates (channelId, epoch) (some candidates) }

def removeEpochCandidates (km : KeyManager) (channelId epoch : UInt32) : KeyManager :=
  { km with
    pendingEpochCandidates :=
      Function.update km.pendingEpochCandidates (channelId, epoch) none }

/-- The candidate continues the current epoch; without one there is no chain to verify. -/
def continuesEpoch (crypto : Crypto) (km : KeyManager) (channelId : UInt32)
    (c : EpochCandidate) : Bool :=
  match km.currentEpochFingerprint crypto channelId with
  | some fp => c.parentFingerprint = fp
  | none => true

def validCandidates (crypto : Crypto) (km : KeyManager) (channelId : UInt32)
    (candidates : List EpochCandidate) : List EpochCandidate :=
  candidates.filter (km.continuesEpoch crypto channelId)

/-- `resolve_epoch_fork`: the candidates are taken out, and the valid one whose sender has
the smallest lower-cased hash becomes the unverified key of the epoch. -/
def resolveEpochFork (toLowercase : String → String) (crypto : Crypto) (km : KeyManager)
    (channelId epoch : UInt32) : KeyManager × Except Error (Option String) :=
  let candidates := (km.pendingEpochCandidates (channelId, epoch)).getD []
  let km := km.removeEpochCandidates channelId epoch
  if candidates.isEmpty then
    (km, .ok none)
  else
    let validCandidates := km.validCandidates crypto channelId candidates
    if validCandidates.isEmpty then
      (km, .error
        (.invalidState "no valid epoch candidates (parent_fingerprint mismatch)"))
    else
      match minByKey (fun c => toLowercase c.senderHash) validCandidates with
      | none =>
          (km, .error (.invalidState
            "valid_candidates unexpectedly empty after non-empty check"))
      | some winner =>
          (km.insertEpochKey channelId epoch winner.epochKey .unverified,
            .ok (some winner.senderHash))

variable (toLowercase : String → String) (crypto : Crypto)

def forkWinner (km : KeyManager) (channelId : UInt32) (candidates : List EpochCandidate) :
    Option EpochCandidate :=
  minByKey (fun c => toLowercase c.senderHash) (km.validCandidates crypto channelId candidates)

def LeadsFork (km : KeyManager) (channelId : UInt32) (candidates : List EpochCandidate)
    (c : EpochCandidate) : Prop :=
  IsSmallest (fun c => toLowercase c.senderHash)
    (km.validCandidates crypto channelId candidates) c

theorem chooses_forkWinner (km : KeyManager) (channelId : UInt32) :
    Chooses (forkWinner toLowercase crypto km channelId)
      (LeadsFork toLowercase crypto km channelId) where
  eligible := isSmallest_of_minByKey
  exists_of_eligible := (chooses_minByKey _).exists_of_eligible
  taken := by
    intro candidates c hc
    -- rotate the whole list until the candidate comes first, valid or not
    obtain ⟨n, rest, hn⟩ := exists_rotate_eq_cons (List.mem_of_mem_filter hc.1)
    refine ⟨n, ?_⟩
    have hperm := (List.rotate_perm candidates n).filter (km.continuesEpoch crypto channelId)
    have hsmallest := IsSmallest.perm hc hperm.symm
    have hvalid := List.of_mem_filter hc.1
    unfold forkWinner validCandidates
    rw [hn, List.filter_cons_of_pos hvalid] at *
    exact minByKey_cons_of_isSmallest hsmallest
  perm := fun hperm hc => IsSmallest.perm hc (hperm.filter _)

/-- What a member ends up with when it resolves a fork of the listed candidates: the
result, and the key that it holds for the epoch. -/
def forkOutcome (km : KeyManager) (channelId epoch : UInt32)
    (candidates : List EpochCandidate) : Except Error (Option String) × Option EpochKey :=
  let resolved :=
    (km.setEpochCandidates channelId epoch candidates).resolveEpochFork toLowercase crypto
      channelId epoch
  (resolved.2, resolved.1.epochKey channelId epoch)

def outcomeOf (km : KeyManager) (channelId epoch : UInt32) (candidates : List EpochCandidate) :
    Option EpochCandidate → Except Error (Option String) × Option EpochKey
  | some winner => (.ok (some winner.senderHash), some winner.epochKey)
  | none =>
      (if candidates.isEmpty then .ok none
        else .error (.invalidState "no valid epoch candidates (parent_fingerprint mismatch)"),
        km.epochKey channelId epoch)

theorem forkOutcome_eq (km : KeyManager) (channelId epoch : UInt32)
    (candidates : List EpochCandidate) :
    forkOutcome toLowercase crypto km channelId epoch candidates =
      km.outcomeOf channelId epoch candidates
        (forkWinner toLowercase crypto km channelId candidates) := by
  have hcandidates : ((km.setEpochCandidates channelId epoch candidates).pendingEpochCandidates
      (channelId, epoch)).getD [] = candidates := by
    simp [setEpochCandidates]
  have hvalid : ((km.setEpochCandidates channelId epoch candidates).removeEpochCandidates
      channelId epoch).validCandidates crypto channelId candidates =
        km.validCandidates crypto channelId candidates := rfl
  unfold forkOutcome resolveEpochFork
  simp only [hcandidates, hvalid]
  by_cases hempty : candidates = []
  · subst hempty
    rfl
  · rw [if_neg (by simpa using hempty)]
    by_cases hnone : km.validCandidates crypto channelId candidates = []
    · have hwinner : forkWinner toLowercase crypto km channelId candidates = none := by
        unfold forkWinner
        rw [hnone]
        rfl
      have hcandidates' : candidates.isEmpty = false := by simpa using hempty
      rw [hnone, hwinner]
      simp only [outcomeOf, hcandidates', List.isEmpty_nil, if_true]
      rfl
    · rw [if_neg (by simpa using hnone)]
      cases hwinner : forkWinner toLowercase crypto km channelId candidates with
      | none => exact absurd (minByKey_eq_none_iff.mp hwinner) hnone
      | some winner =>
          unfold forkWinner at hwinner
          rw [hwinner]
          simp [outcomeOf]

/-- The leading candidates of two members cannot be told apart by their sender and key, and
members without a leading candidate hold the same key already. -/
def ForkDecided (km km' : KeyManager) (channelId epoch : UInt32)
    (candidates : List EpochCandidate) : Prop :=
  (∀ c c', LeadsFork toLowercase crypto km channelId candidates c →
    LeadsFork toLowercase crypto km' channelId candidates c' →
      c.senderHash = c'.senderHash ∧ c.epochKey = c'.epochKey) ∧
  ((∃ c, LeadsFork toLowercase crypto km channelId candidates c) ↔
    ∃ c, LeadsFork toLowercase crypto km' channelId candidates c) ∧
  ((∀ c, ¬LeadsFork toLowercase crypto km channelId candidates c) →
    km.epochKey channelId epoch = km'.epochKey channelId epoch)

theorem outcomeOf_some_ne_none (km km' : KeyManager) (channelId epoch : UInt32)
    (candidates : List EpochCandidate) (winner : EpochCandidate) :
    km.outcomeOf channelId epoch candidates (some winner) ≠
      km'.outcomeOf channelId epoch candidates none := by
  intro h
  have hresult := congrArg Prod.fst h
  simp only [outcomeOf] at hresult
  split at hresult <;> cases hresult

theorem forkDecided_iff (km km' : KeyManager) (channelId epoch : UInt32)
    (candidates : List EpochCandidate) :
    ForkDecided toLowercase crypto km km' channelId epoch candidates ↔
      ∀ chosen chosen',
        Chooses.Possible (LeadsFork toLowercase crypto km channelId) candidates chosen →
        Chooses.Possible (LeadsFork toLowercase crypto km' channelId) candidates chosen' →
          km.outcomeOf channelId epoch candidates chosen =
            km'.outcomeOf channelId epoch candidates chosen' := by
  constructor
  · rintro ⟨hboth, hsome, hnone⟩ chosen chosen' hchosen hchosen'
    cases chosen with
    | some c =>
        cases chosen' with
        | some c' =>
            obtain ⟨hsender, hkey⟩ := hboth c c' hchosen hchosen'
            simp only [outcomeOf, hsender, hkey]
        | none =>
            obtain ⟨c', hc'⟩ := hsome.mp ⟨c, hchosen⟩
            exact absurd hc' (hchosen' c')
    | none =>
        cases chosen' with
        | some c' =>
            obtain ⟨c, hc⟩ := hsome.mpr ⟨c', hchosen'⟩
            exact absurd hc (hchosen c)
        | none => simp only [outcomeOf, hnone hchosen]
  · intro hsame
    refine ⟨fun c c' hc hc' => ?_, ⟨?_, ?_⟩, fun hnone => ?_⟩
    · have hpair := hsame (some c) (some c') hc hc'
      simpa [outcomeOf] using hpair
    · rintro ⟨c, hc⟩
      by_contra hnone
      exact outcomeOf_some_ne_none km km' channelId epoch candidates c
        (hsame (some c) none hc fun c' hc' => hnone ⟨c', hc'⟩)
    · rintro ⟨c', hc'⟩
      by_contra hnone
      exact outcomeOf_some_ne_none km' km channelId epoch candidates c'
        (hsame none (some c') (fun c hc => hnone ⟨c, hc⟩) hc').symm
    · by_cases hsome : ∃ c', LeadsFork toLowercase crypto km' channelId candidates c'
      · obtain ⟨c', hc'⟩ := hsome
        exact absurd (hsame none (some c') hnone hc').symm
          (outcomeOf_some_ne_none km' km channelId epoch candidates c')
      · exact congrArg Prod.snd (hsame none none hnone fun c' hc' => hsome ⟨c', hc'⟩)

/-- Two members that add the same candidates, each in an order of its own, end with the same
winner and the same key for the epoch exactly if the fork is decided. -/
theorem fork_outcomes_agree_iff (km km' : KeyManager) (channelId epoch : UInt32)
    (candidates : List EpochCandidate) :
    (∀ order order', order.Perm candidates → order'.Perm candidates →
        forkOutcome toLowercase crypto km channelId epoch order =
          forkOutcome toLowercase crypto km' channelId epoch order') ↔
      ForkDecided toLowercase crypto km km' channelId epoch candidates := by
  have houtcome : ∀ (m : KeyManager) order, order.Perm candidates →
      forkOutcome toLowercase crypto m channelId epoch order =
        m.outcomeOf channelId epoch candidates
          (forkWinner toLowercase crypto m channelId order) := by
    intro m order hperm
    rw [forkOutcome_eq]
    unfold outcomeOf
    rw [hperm.isEmpty_eq]
  rw [forkDecided_iff, ← (chooses_forkWinner toLowercase crypto km channelId).forall_perm_iff
    (chooses_forkWinner toLowercase crypto km' channelId)]
  refine forall_congr' fun order => forall_congr' fun order' => ?_
  refine imp_congr_right fun hperm => imp_congr_right fun hperm' => ?_
  rw [houtcome km order hperm, houtcome km' order' hperm']

section Example

private def candidateOf (sender : String) (byte : UInt8) : EpochCandidate where
  senderHash := sender
  epochKey := { key := .replicate byte }
  parentFingerprint := []
  epochFingerprint := List.replicate 8 byte

/-- Of one sender's two candidates for an epoch, the one that arrives first wins. -/
theorem fork_of_one_sender_depends_on_order :
    ¬∀ (toLowercase : String → String) (crypto : Crypto) (km : KeyManager)
      (channelId epoch : UInt32) (candidates order order' : List EpochCandidate),
      order.Perm candidates → order'.Perm candidates →
        forkOutcome toLowercase crypto km channelId epoch order =
          forkOutcome toLowercase crypto km channelId epoch order' := by
  intro h
  have hsame := h String.toLower .plain {} 7 1 _ [candidateOf "peer" 1, candidateOf "peer" 2]
    [candidateOf "peer" 2, candidateOf "peer" 1] (List.Perm.refl _) (List.Perm.swap _ _ _)
  exact absurd (congrArg Prod.snd hsame) (by decide +kernel)

end Example

end KeyManager

end FancyMumble.Persistent
