import FancyMumble.Audio.Mixer

/-!
# The recording of the inbound audio

`snapshot_and_mix`: the recorder reads the shared speaker buffers without draining them, from
a cursor for each speaker on, and mixes what it reads.
-/

namespace FancyMumble.Audio

open Lib

variable {α : Type*}

abbrev Cursors := Nat → Option Nat

def Cursors.at (cursors : Cursors) (session : Nat) : Nat := (cursors session).getD 0

def Cursors.clamped (cursors : Cursors) (session length : Nat) : Nat :=
  if cursors.at session > length then length else cursors.at session

theorem Cursors.clamped_eq (cursors : Cursors) (session length : Nat) :
    cursors.clamped session length = min (cursors.at session) length := by
  rw [clamped]
  split_ifs <;> omega

theorem Cursors.clamped_update_of_ne (cursors : Cursors) {session other : Nat}
    (h : other ≠ session) (cursor : Option Nat) (length : Nat) :
    Cursors.clamped (Function.update cursors session cursor) other length =
      cursors.clamped other length := by
  rw [clamped_eq, clamped_eq, Cursors.at, Cursors.at, Function.update_of_ne h]

structure Read (α : Type*) where
  session : Nat
  start : Nat
  samples : List α
deriving DecidableEq

def addSamples [Add α] : List α → List α → List α
  | dst :: mix, sample :: samples => (dst + sample) :: addSamples mix samples
  | mix, _ => mix

/-- The first loop: the cursors are clamped, and the longest unread part is measured. -/
def measure (acc : Nat × Cursors) (entry : Nat × List α) : Nat × Cursors :=
  let (session, buf) := entry
  let cursor := acc.2.clamped session buf.length
  let newCount := buf.length - cursor
  (max acc.1 newCount, Function.update acc.2 session (some cursor))

structure Mixing (α : Type*) where
  mixBuf : List α
  cursors : Cursors
  reads : List (Read α)

def Mixing.add [Add α] (maxNew : Nat) (acc : Mixing α) (entry : Nat × List α) : Mixing α :=
  let (session, buf) := entry
  let start := acc.cursors.clamped session buf.length
  let n := min (buf.length - start) maxNew
  let samples := (buf.drop start).take n
  { mixBuf := addSamples acc.mixBuf samples
    cursors := Function.update acc.cursors session (some (start + n))
    reads := acc.reads ++ [{ session, start, samples }] }

theorem Mixing.reads_add [Add α] (maxNew : Nat) (acc : Mixing α) (session : Nat) (buf : List α) :
    (acc.add maxNew (session, buf)).reads = acc.reads ++
      [⟨session, acc.cursors.clamped session buf.length,
        (buf.drop (acc.cursors.clamped session buf.length)).take
          (min (buf.length - acc.cursors.clamped session buf.length) maxNew)⟩] := rfl

def SpeakerBuffers.Has (buffers : SpeakerBuffers α) (session : Nat) : Prop :=
  session ∈ buffers.map Prod.fst

instance (buffers : SpeakerBuffers α) (session : Nat) : Decidable (buffers.Has session) :=
  inferInstanceAs (Decidable (_ ∈ _))

structure Snapshot (α : Type*) where
  count : Nat
  mixBuf : List α
  cursors : Cursors
  reads : List (Read α)

def snapshotAndMix [Zero α] [Add α] (clamp : α → α) (buffers : SpeakerBuffers α)
    (mixBuf : List α) (cursors : Cursors) : Snapshot α :=
  let (maxNew, cursors) := buffers.foldl measure (0, cursors)
  if maxNew = 0 then { count := 0, mixBuf, cursors, reads := [] }
  else
    let mixing : Mixing α := { mixBuf := List.replicate maxNew 0, cursors, reads := [] }
    let mixing := buffers.foldl (Mixing.add maxNew) mixing
    { count := maxNew
      mixBuf := mixing.mixBuf.map clamp
      cursors := fun session => if buffers.Has session then mixing.cursors session else none
      reads := mixing.reads }

/-! ## The two loops -/

theorem ne_of_mem_entries {entries : SpeakerBuffers α} {entry : Nat × List α} {session : Nat}
    (hnew : session ∉ entries.map Prod.fst) (hentry : entry ∈ entries) : entry.1 ≠ session := by
  rintro rfl
  exact hnew (List.mem_map_of_mem hentry)

/-- Distinct speakers do not disturb each other's cursors in the first loop, and the measure
covers the unread part of each. -/
theorem foldl_measure (entries : SpeakerBuffers α) (hkeys : (entries.map Prod.fst).Nodup)
    (acc : Nat × Cursors) :
    acc.1 ≤ (entries.foldl measure acc).1 ∧
      (∀ session, session ∉ entries.map Prod.fst →
        (entries.foldl measure acc).2 session = acc.2 session) ∧
      ∀ entry ∈ entries,
        (entries.foldl measure acc).2 entry.1 = some (acc.2.clamped entry.1 entry.2.length) ∧
          entry.2.length - acc.2.clamped entry.1 entry.2.length ≤
            (entries.foldl measure acc).1 := by
  induction entries generalizing acc with
  | nil => exact ⟨Nat.le_refl _, fun _ _ => rfl, fun _ h => nomatch h⟩
  | cons entry entries ih =>
      obtain ⟨session, buf⟩ := entry
      rw [List.map_cons, List.nodup_cons] at hkeys
      obtain ⟨hnew, hkeys⟩ := hkeys
      obtain ⟨hle, hothers, hentries⟩ := ih hkeys (measure acc (session, buf))
      rw [List.foldl_cons]
      refine ⟨Nat.le_trans (Nat.le_max_left _ _) hle, ?_, ?_⟩
      · intro other hother
        rw [List.map_cons, List.mem_cons, not_or] at hother
        rw [hothers other hother.2]
        exact Function.update_of_ne hother.1 _ _
      · intro entry hentry
        rcases List.mem_cons.mp hentry with rfl | hentry
        · constructor
          · rw [hothers session hnew]
            exact Function.update_self _ _ _
          · exact Nat.le_trans (Nat.le_max_right _ _) hle
        · have hsame : (measure acc (session, buf)).2.clamped entry.1 entry.2.length =
              acc.2.clamped entry.1 entry.2.length :=
            Cursors.clamped_update_of_ne _ (ne_of_mem_entries hnew hentry) _ _
          rw [← hsame]
          exact hentries entry hentry

/-- The second loop reads every buffer from its clamped cursor to the end. -/
theorem foldl_add [Add α] (maxNew : Nat) (entries : SpeakerBuffers α)
    (hkeys : (entries.map Prod.fst).Nodup) (acc : Mixing α)
    (hnew : ∀ entry ∈ entries,
      entry.2.length - acc.cursors.clamped entry.1 entry.2.length ≤ maxNew) :
    (∀ session, session ∉ entries.map Prod.fst →
        (entries.foldl (Mixing.add maxNew) acc).cursors session = acc.cursors session) ∧
      (∀ entry ∈ entries,
        (entries.foldl (Mixing.add maxNew) acc).cursors entry.1 = some entry.2.length) ∧
      (entries.foldl (Mixing.add maxNew) acc).reads =
        acc.reads ++ entries.map fun entry =>
          { session := entry.1
            start := acc.cursors.clamped entry.1 entry.2.length
            samples := entry.2.drop (acc.cursors.clamped entry.1 entry.2.length) } := by
  induction entries generalizing acc with
  | nil => exact ⟨fun _ _ => rfl, (fun _ h => nomatch h), (List.append_nil _).symm⟩
  | cons entry entries ih =>
      obtain ⟨session, buf⟩ := entry
      rw [List.map_cons, List.nodup_cons] at hkeys
      obtain ⟨hfresh, hkeys⟩ := hkeys
      have hthis := hnew (session, buf) List.mem_cons_self
      have hcount : min (buf.length - acc.cursors.clamped session buf.length) maxNew =
          buf.length - acc.cursors.clamped session buf.length := Nat.min_eq_left hthis
      have hend : acc.cursors.clamped session buf.length +
          (buf.length - acc.cursors.clamped session buf.length) = buf.length := by
        rw [Cursors.clamped_eq]
        omega
      have hsame : ∀ entry ∈ entries,
          (acc.add maxNew (session, buf)).cursors.clamped entry.1 entry.2.length =
            acc.cursors.clamped entry.1 entry.2.length := by
        intro entry hentry
        exact Cursors.clamped_update_of_ne _ (ne_of_mem_entries hfresh hentry) _ _
      obtain ⟨hothers, hentries, hreads⟩ := ih hkeys (acc.add maxNew (session, buf))
        fun entry hentry => (hsame entry hentry).symm ▸
          hnew entry (List.mem_cons_of_mem _ hentry)
      rw [List.foldl_cons]
      refine ⟨?_, ?_, ?_⟩
      · intro other hother
        rw [List.map_cons, List.mem_cons, not_or] at hother
        rw [hothers other hother.2]
        exact Function.update_of_ne hother.1 _ _
      · intro entry hentry
        rcases List.mem_cons.mp hentry with rfl | hentry
        · rw [hothers session hfresh]
          refine (Function.update_self _ _ _).trans ?_
          rw [hcount, hend]
        · exact hentries entry hentry
      · rw [hreads, List.map_cons]
        have hread : (acc.add maxNew (session, buf)).reads = acc.reads ++
            [⟨session, acc.cursors.clamped session buf.length,
              buf.drop (acc.cursors.clamped session buf.length)⟩] := by
          rw [Mixing.reads_add, hcount, List.take_of_length_le (Nat.le_of_eq List.length_drop)]
        rw [hread, List.append_assoc, List.singleton_append]
        congr 2
        refine List.map_congr_left fun entry hentry => ?_
        rw [hsame entry hentry]

/-! ## What a snapshot reads -/

namespace SpeakerBuffers

theorem buffer_cons_self (session : Nat) (buf : List α) (buffers : SpeakerBuffers α) :
    buffer ((session, buf) :: buffers) session = buf := by
  rw [buffer, Keyed.find, List.find?_cons_of_pos (by simp)]
  rfl

theorem buffer_cons_of_ne {session other : Nat} (h : other ≠ session) (buf : List α)
    (buffers : SpeakerBuffers α) :
    buffer ((session, buf) :: buffers) other = buffer buffers other := by
  rw [buffer, Keyed.find, List.find?_cons_of_neg (by simpa using h.symm), buffer, Keyed.find]

theorem buffer_of_not_has {buffers : SpeakerBuffers α} {session : Nat}
    (h : ¬ buffers.Has session) : buffers.buffer session = [] := by
  have hnone : Keyed.find Prod.fst session buffers = none :=
    Keyed.find_eq_none_iff.mpr fun entry hentry heq => h (heq ▸ List.mem_map_of_mem hentry)
  rw [buffer, hnone]
  rfl

theorem mem_of_has {buffers : SpeakerBuffers α} {session : Nat} (h : buffers.Has session) :
    (session, buffers.buffer session) ∈ buffers := by
  induction buffers with
  | nil => cases h
  | cons entry buffers ih =>
      obtain ⟨other, buf⟩ := entry
      by_cases heq : session = other
      · subst heq
        rw [buffer_cons_self]
        exact List.mem_cons_self
      · rw [buffer_cons_of_ne heq]
        refine List.mem_cons_of_mem _ (ih ?_)
        exact (List.mem_cons.mp h).resolve_left heq

theorem filter_map_eq {β : Type*} (buffers : SpeakerBuffers α)
    (hkeys : (buffers.map Prod.fst).Nodup) (session : Nat) (f : Nat × List α → β)
    (key : β → Nat) (hkey : ∀ entry, key (f entry) = entry.1) :
    (buffers.map f).filter (fun x => key x = session) =
      if buffers.Has session then [f (session, buffers.buffer session)] else [] := by
  induction buffers with
  | nil => rfl
  | cons entry buffers ih =>
      obtain ⟨other, buf⟩ := entry
      rw [List.map_cons, List.nodup_cons] at hkeys
      rw [List.map_cons]
      by_cases heq : session = other
      · subst heq
        have hnot : ¬ Has buffers session := hkeys.1
        have hhas : Has ((session, buf) :: buffers) session := List.mem_cons_self
        rw [List.filter_cons_of_pos (by simpa using hkey (session, buf)), ih hkeys.2,
          if_neg hnot, if_pos hhas, buffer_cons_self]
      · rw [List.filter_cons_of_neg (by simpa [hkey] using Ne.symm heq), ih hkeys.2,
          buffer_cons_of_ne heq]
        refine if_congr ?_ rfl rfl
        exact ⟨List.mem_cons_of_mem _, fun h => (List.mem_cons.mp h).resolve_left heq⟩

end SpeakerBuffers

namespace Snapshot

def samplesOf (snapshot : Snapshot α) (session : Nat) : List α :=
  (snapshot.reads.filter fun read => read.session = session).flatMap Read.samples

def indicesOf (snapshot : Snapshot α) (session : Nat) : List Nat :=
  (snapshot.reads.filter fun read => read.session = session).flatMap fun read =>
    List.range' read.start read.samples.length

end Snapshot

def readStart (buffers : SpeakerBuffers α) (cursors : Cursors) (session : Nat) : Nat :=
  min (cursors.at session) (buffers.buffer session).length

section Spec

variable [Zero α] [Add α] (clamp : α → α) {buffers : SpeakerBuffers α} (mixBuf : List α)
  (cursors : Cursors)

/-- What the two loops come to: either there is nothing new, or every buffer is read from its
cursor to its end. -/
theorem snapshotAndMix_cases (hkeys : (buffers.map Prod.fst).Nodup) :
    let snapshot := snapshotAndMix clamp buffers mixBuf cursors
    (∀ entry ∈ buffers, snapshot.cursors entry.1 = some entry.2.length) ∧
      ((snapshot.reads = [] ∧
          (∀ entry ∈ buffers, entry.2.length ≤ cursors.at entry.1) ∧
          ∀ session, ¬ buffers.Has session → snapshot.cursors session = cursors session) ∨
        (snapshot.reads = buffers.map fun entry =>
            ⟨entry.1, cursors.clamped entry.1 entry.2.length,
              entry.2.drop (cursors.clamped entry.1 entry.2.length)⟩) ∧
          ∀ session, ¬ buffers.Has session → snapshot.cursors session = none) := by
  obtain ⟨-, hothers, hentries⟩ := foldl_measure buffers hkeys (0, cursors)
  rcases hmeasure : buffers.foldl measure (0, cursors) with ⟨maxNew, measured⟩
  rw [hmeasure] at hothers hentries
  dsimp only at hothers hentries
  dsimp only [snapshotAndMix]
  rw [hmeasure]
  dsimp only
  have hclamped : ∀ entry ∈ buffers,
      measured.clamped entry.1 entry.2.length = cursors.clamped entry.1 entry.2.length := by
    intro entry hentry
    have hcursor := (hentries entry hentry).1
    rw [Cursors.clamped_eq, Cursors.at, hcursor, Option.getD_some, Cursors.clamped_eq]
    omega
  split_ifs with hzero
  · refine ⟨?_, .inl ⟨rfl, ?_, ?_⟩⟩
    · intro entry hentry
      obtain ⟨hcursor, hnew⟩ := hentries entry hentry
      rw [Cursors.clamped_eq] at hcursor hnew
      refine hcursor.trans (congrArg some ?_)
      omega
    · intro entry hentry
      have hnew := (hentries entry hentry).2
      rw [Cursors.clamped_eq] at hnew
      omega
    · exact fun session hnot => hothers session hnot
  · have hnew : ∀ entry ∈ buffers,
        entry.2.length - measured.clamped entry.1 entry.2.length ≤ maxNew := by
      intro entry hentry
      rw [hclamped entry hentry]
      exact (hentries entry hentry).2
    obtain ⟨-, hcursors, hreads⟩ := foldl_add maxNew buffers hkeys
      { mixBuf := List.replicate maxNew 0, cursors := measured, reads := [] } hnew
    refine ⟨?_, .inr ⟨?_, ?_⟩⟩
    · intro entry hentry
      have hhas : buffers.Has entry.1 := List.mem_map_of_mem hentry
      exact (if_pos hhas).trans (hcursors entry hentry)
    · rw [hreads, List.nil_append]
      refine List.map_congr_left fun entry hentry => ?_
      rw [hclamped entry hentry]
    · exact fun session hnot => if_neg hnot

theorem filter_reads_snapshotAndMix (hkeys : (buffers.map Prod.fst).Nodup) (session : Nat) :
    ((snapshotAndMix clamp buffers mixBuf cursors).reads.filter fun read =>
        read.session = session) =
      [⟨session, readStart buffers cursors session,
        (buffers.buffer session).drop (readStart buffers cursors session)⟩] ∨
    ((snapshotAndMix clamp buffers mixBuf cursors).reads.filter fun read =>
        read.session = session) = [] ∧
      readStart buffers cursors session = (buffers.buffer session).length := by
  obtain ⟨-, hcases⟩ := snapshotAndMix_cases clamp mixBuf cursors hkeys
  by_cases hhas : buffers.Has session
  · rcases hcases with ⟨hreads, hread, -⟩ | ⟨hreads, -⟩
    · refine .inr ⟨by rw [hreads]; rfl, Nat.min_eq_right ?_⟩
      exact hread _ (SpeakerBuffers.mem_of_has hhas)
    · left
      rw [hreads, SpeakerBuffers.filter_map_eq buffers hkeys session _ Read.session
        (fun _ => rfl), if_pos hhas, Cursors.clamped_eq]
      rfl
  · right
    refine ⟨?_, ?_⟩
    · rcases hcases with ⟨hreads, -⟩ | ⟨hreads, -⟩
      · rw [hreads]
        rfl
      · rw [hreads, SpeakerBuffers.filter_map_eq buffers hkeys session _ Read.session
          (fun _ => rfl), if_neg hhas]
    · rw [readStart, SpeakerBuffers.buffer_of_not_has hhas]
      exact Nat.min_zero _

theorem samplesOf_snapshotAndMix (hkeys : (buffers.map Prod.fst).Nodup) (session : Nat) :
    (snapshotAndMix clamp buffers mixBuf cursors).samplesOf session =
      (buffers.buffer session).drop (readStart buffers cursors session) := by
  rw [Snapshot.samplesOf]
  rcases filter_reads_snapshotAndMix clamp mixBuf cursors hkeys session with hread | ⟨hno, hend⟩
  · rw [hread]
    exact List.append_nil _
  · rw [hno, hend, List.drop_length]
    rfl

theorem indicesOf_snapshotAndMix (hkeys : (buffers.map Prod.fst).Nodup) (session : Nat) :
    (snapshotAndMix clamp buffers mixBuf cursors).indicesOf session =
      List.range' (readStart buffers cursors session)
        ((buffers.buffer session).length - readStart buffers cursors session) := by
  rw [Snapshot.indicesOf]
  rcases filter_reads_snapshotAndMix clamp mixBuf cursors hkeys session with hread | ⟨hno, hend⟩
  · rw [hread, List.flatMap_cons, List.flatMap_nil, List.append_nil, List.length_drop]
  · rw [hno, hend, Nat.sub_self]
    rfl

theorem cursor_snapshotAndMix (hkeys : (buffers.map Prod.fst).Nodup) {session : Nat}
    (hhas : buffers.Has session) :
    (snapshotAndMix clamp buffers mixBuf cursors).cursors.at session =
      (buffers.buffer session).length := by
  have hcursors := (snapshotAndMix_cases clamp mixBuf cursors hkeys).1
  rw [Cursors.at, hcursors _ (SpeakerBuffers.mem_of_has hhas), Option.getD_some]

theorem cursor_snapshotAndMix_of_not_has (hkeys : (buffers.map Prod.fst).Nodup) {session : Nat}
    (hnot : ¬ buffers.Has session) :
    (snapshotAndMix clamp buffers mixBuf cursors).cursors session = none ∨
      (snapshotAndMix clamp buffers mixBuf cursors).cursors session = cursors session := by
  rcases (snapshotAndMix_cases clamp mixBuf cursors hkeys).2 with ⟨-, -, hkept⟩ | ⟨-, hdropped⟩
  · exact .inr (hkept session hnot)
  · exact .inl (hdropped session hnot)

end Spec

end FancyMumble.Audio
