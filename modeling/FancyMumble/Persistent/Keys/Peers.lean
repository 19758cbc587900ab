import FancyMumble.Lib.Newest
import FancyMumble.Lib.Runs
import FancyMumble.Persistent.Keys.Distribute

/-!
# Recorded peer keys

For each certificate hash the key manager keeps a register of announced keys: a validly
signed announcement gets in if it is newer than the recorded one. The record of a hash
therefore comes from the newest valid announcement, in whatever order the announcements
arrive.
-/

namespace FancyMumble.Persistent.KeyManager

open Lib.Newest Lib.Runs

def announcedRecord (crypto : Crypto) (hash : String) (announce : PchatKeyAnnounce) :
    Option PeerKeyRecord :=
  match verifyKeyAnnounce crypto announce with
  | .ok verifyingKey =>
      if announce.certHash = hash then
        some
          { algorithmVersion := announce.algorithmVersion
            dhPublic := announce.identityPublic
            signingPublic := verifyingKey
            highestAnnounceTs := announce.timestamp }
      else none
  | .error _ => none

def announceTime (record : PeerKeyRecord) : Nat :=
  record.highestAnnounceTs.toNat

def announced (crypto : Crypto) (km : KeyManager) (announce : PchatKeyAnnounce) : KeyManager :=
  (km.recordPeerKey crypto announce).1

variable {crypto : Crypto} {km : KeyManager} {announce : PchatKeyAnnounce} {hash : String}

theorem announcedRecord_eq_some_iff {record : PeerKeyRecord} :
    announcedRecord crypto hash announce = some record ↔
      announce.certHash = hash ∧
        verifyKeyAnnounce crypto announce = .ok record.signingPublic ∧
        record.algorithmVersion = announce.algorithmVersion ∧
        record.dhPublic = announce.identityPublic ∧
        record.highestAnnounceTs = announce.timestamp := by
  unfold announcedRecord
  cases verifyKeyAnnounce crypto announce with
  | error e => simp
  | ok verifyingKey =>
      dsimp only
      constructor
      · intro h
        split at h
        next hhash =>
          cases h
          exact ⟨hhash, rfl, rfl, rfl, rfl⟩
        next => cases h
      · rintro ⟨hhash, hkey, hversion, hpublic, hts⟩
        obtain ⟨version, dhPublic, signingPublic, ts⟩ := record
        cases hkey
        cases hversion
        cases hpublic
        cases hts
        rw [if_pos hhash]

theorem certHash_of_announcedRecord {record : PeerKeyRecord}
    (h : announcedRecord crypto hash announce = some record) : announce.certHash = hash :=
  (announcedRecord_eq_some_iff.mp h).1

theorem highestAnnounceTs_of_announcedRecord {record : PeerKeyRecord}
    (h : announcedRecord crypto hash announce = some record) :
    record.highestAnnounceTs = announce.timestamp :=
  (announcedRecord_eq_some_iff.mp h).2.2.2.2

theorem peerKeys_announced (crypto : Crypto) (km : KeyManager) (announce : PchatKeyAnnounce)
    (hash : String) :
    (km.announced crypto announce).peerKeys hash =
      match announcedRecord crypto hash announce with
      | some record => keepNewest announceTime (km.peerKeys hash) record
      | none => km.peerKeys hash := by
  unfold announced recordPeerKey announcedRecord
  cases hverify : verifyKeyAnnounce crypto announce with
  | error e => rfl
  | ok verifyingKey =>
      by_cases hhash : announce.certHash = hash
      · subst hhash
        simp only [if_true, keepNewest, announceTime, ← UInt64.le_iff_toNat_le]
        split
        · rfl
        · exact Function.update_self _ _ _
      · simp only [if_neg hhash]
        split
        · rfl
        · exact Function.update_of_ne (Ne.symm hhash) _ _

/-- A run of announcements gives the register of a hash their records. -/
theorem peerKeys_run (crypto : Crypto) (km : KeyManager) (announces : List PchatKeyAnnounce)
    (hash : String) :
    (run (announced crypto) km announces).peerKeys hash =
      (announces.filterMap (announcedRecord crypto hash)).foldl
        (keepNewest announceTime) (km.peerKeys hash) := by
  induction announces generalizing km with
  | nil => rfl
  | cons announce announces ih =>
      rw [run_cons, ih, peerKeys_announced]
      cases hrecord : announcedRecord crypto hash announce with
      | none => rw [List.filterMap_cons_none hrecord]
      | some record => rw [List.filterMap_cons_some hrecord, List.foldl_cons]

theorem announced_eq (crypto : Crypto) (km : KeyManager) (announce : PchatKeyAnnounce) :
    km.announced crypto announce =
      { km with peerKeys := (km.announced crypto announce).peerKeys } := by
  unfold announced recordPeerKey
  split
  · rfl
  · split <;> rfl

theorem run_announced_eq (crypto : Crypto) (km : KeyManager)
    (announces : List PchatKeyAnnounce) :
    run (announced crypto) km announces =
      { km with peerKeys := (run (announced crypto) km announces).peerKeys } := by
  induction announces generalizing km with
  | nil => rfl
  | cons announce announces ih =>
      rw [run_cons, ih]
      rw [announced_eq]

theorem announced_of_rejected (h : (km.recordPeerKey crypto announce).2 ≠ .ok true) :
    km.announced crypto announce = km := by
  unfold announced
  unfold recordPeerKey at h ⊢
  split
  · rfl
  · split
    · rfl
    next hverify hnewer =>
      simp only [hverify, if_neg hnewer, ne_eq, not_true] at h

/-- Two announcements of one hash never share a timestamp. -/
def DistinctTimestamps (announces : List PchatKeyAnnounce) : Prop :=
  ∀ a ∈ announces, ∀ b ∈ announces, a.certHash = b.certHash → a.timestamp = b.timestamp → a = b

theorem injOn_highestAnnounceTs {announces : List PchatKeyAnnounce}
    (hdistinct : DistinctTimestamps announces) (hash : String) :
    Set.InjOn announceTime
      {record | record ∈ announces.filterMap (announcedRecord crypto hash)} := by
  intro r hr r' hr' hts
  obtain ⟨a, ha, hrecord⟩ := List.mem_filterMap.mp hr
  obtain ⟨b, hb, hrecord'⟩ := List.mem_filterMap.mp hr'
  have hhash : a.certHash = b.certHash :=
    (certHash_of_announcedRecord hrecord).trans (certHash_of_announcedRecord hrecord').symm
  have htimestamp : a.timestamp = b.timestamp := by
    rw [← highestAnnounceTs_of_announcedRecord hrecord, UInt64.toNat_inj.mp hts,
      highestAnnounceTs_of_announcedRecord hrecord']
  cases hdistinct a ha b hb hhash htimestamp
  exact Option.some.inj (hrecord.symm.trans hrecord')

/-- After any announcements, the record of a hash is that of the newest valid announcement
of the hash, or the one from before if none was newer. For distinct timestamps the order of
the announcements does not matter. Recorded timestamps never go back, other hashes keep
their records, and what is rejected leaves no trace. -/
theorem newest_announce_recorded (crypto : Crypto) (km : KeyManager)
    (announces : List PchatKeyAnnounce) :
    (∀ hash, IsNewest announceTime (km.peerKeys hash)
        (announces.filterMap (announcedRecord crypto hash))
        ((run (announced crypto) km announces).peerKeys hash)) ∧
      (DistinctTimestamps announces → ∀ arrived : List PchatKeyAnnounce,
        (∀ announce, announce ∈ arrived ↔ announce ∈ announces) →
          run (announced crypto) km arrived = run (announced crypto) km announces) ∧
      (∀ hash old, km.peerKeys hash = some old →
        ∃ record, (run (announced crypto) km announces).peerKeys hash = some record ∧
          old.highestAnnounceTs ≤ record.highestAnnounceTs) ∧
      (∀ hash, (∀ announce ∈ announces, announce.certHash ≠ hash) →
        (run (announced crypto) km announces).peerKeys hash = km.peerKeys hash) ∧
      Along (announced crypto) (fun km announce =>
        (km.recordPeerKey crypto announce).2 ≠ .ok true → km.announced crypto announce = km)
        km announces := by
  have hnewest : ∀ (hash : String) (announces : List PchatKeyAnnounce),
      IsNewest announceTime (km.peerKeys hash)
        (announces.filterMap (announcedRecord crypto hash))
        ((run (announced crypto) km announces).peerKeys hash) := by
    intro hash announces
    rw [peerKeys_run]
    exact isNewest_foldl _ _
  refine ⟨fun hash => hnewest hash announces, ?_, ?_, ?_, ?_⟩
  · intro hdistinct arrived harrived
    rw [run_announced_eq crypto km arrived, run_announced_eq crypto km announces]
    have hpeers : (run (announced crypto) km arrived).peerKeys =
        (run (announced crypto) km announces).peerKeys := by
      funext hash
      refine ((hnewest hash announces).unique (hnewest hash arrived) (fun record => ?_)
        (injOn_highestAnnounceTs hdistinct hash)).symm
      simp only [List.mem_filterMap, harrived]
    rw [hpeers]
  · exact fun hash old hold => (hnewest hash announces).stamp_le hold
  · intro hash hother
    have hnone : announces.filterMap (announcedRecord crypto hash) = [] := by
      rw [List.filterMap_eq_nil_iff]
      intro announce hannounce
      cases hrecord : announcedRecord crypto hash announce with
      | none => rfl
      | some record =>
          exact absurd (certHash_of_announcedRecord hrecord) (hother announce hannounce)
    rw [peerKeys_run, hnone, List.foldl_nil]
  · exact along_of_forall (fun _ _ => announced_of_rejected) km announces

section Example

private def announceAt (timestamp : UInt64) : PchatKeyAnnounce where
  algorithmVersion := 1
  identityPublic := List.replicate 32 timestamp.toUInt8
  signingPublic := List.replicate 32 0
  certHash := "peer"
  timestamp := timestamp
  signature := []

/-- Two announcements may arrive in either order. -/
theorem newest_announce_recorded_example :
    run (announced .plain) ({} : KeyManager) [announceAt 2, announceAt 1] =
      run (announced .plain) ({} : KeyManager) [announceAt 1, announceAt 2] := by
  refine (newest_announce_recorded .plain {} [announceAt 1, announceAt 2]).2.1 ?_ _ ?_
  · rintro a ha b hb - hts
    rcases List.mem_pair.mp ha with rfl | rfl <;> rcases List.mem_pair.mp hb with rfl | rfl
    · rfl
    · exact absurd hts (by decide)
    · exact absurd hts (by decide)
    · rfl
  · simp only [List.mem_pair]
    exact fun announce => or_comm

end Example

end FancyMumble.Persistent.KeyManager
