import FancyMumble.Transport.Ocb2.Link

/-!
# The packet statistics of a link

What the counters of a receiver say after every delivery, and what they should say: how
many packets were accepted, how many numbers up to the highest accepted one are still
missing, and how many packets arrived behind a later one.
-/

namespace FancyMumble.Transport.Ocb2

open Lib
open Lib.Runs (Along)

/-! ## One update of the counters -/

namespace PacketStats

theorem record_ahead (stats : PacketStats) (skipped : Nat) :
    stats.record 0 skipped =
      { stats with good := stats.good + 1, lost := stats.lost + UInt32.ofNat skipped } := by
  cases skipped with
  | zero => simp [record]
  | succ skipped => simp [record]

/-- What a packet takes from the counter of late ones was counted there before. -/
theorem late_record_le (stats : PacketStats) (late lost : Int) :
    (stats.record late lost).late.toNat ≤
      (if late > 0 then stats.late + UInt32.ofNat late.toNat else stats.late).toNat := by
  have hlate : (if late > 0 then { stats with
      good := stats.good + 1, late := stats.late + UInt32.ofNat late.toNat }
      else { stats with good := stats.good + 1 }).late =
        if late > 0 then stats.late + UInt32.ofNat late.toNat else stats.late := by
    split <;> rfl
  rw [← hlate, record]
  dsimp only
  generalize (if late > 0 then { stats with
    good := stats.good + 1, late := stats.late + UInt32.ofNat late.toNat }
    else { stats with good := stats.good + 1 }) = counted
  split
  · exact Nat.le_refl _
  · split
    · next hroom =>
        -- the counter, read as signed, is above what is taken
        have hvalue : lost.natAbs ≤ counted.late.toNat := by
          have hsigned : counted.late.toInt32.toInt ≤ counted.late.toNat := by
            show counted.late.toBitVec.toInt ≤ counted.late.toBitVec.toNat
            rw [BitVec.toInt_eq_toNat_cond]
            split <;> omega
          omega
        have hsmall : (UInt32.ofNat lost.natAbs).toNat = lost.natAbs := by
          rw [UInt32.toNat_ofNat']
          have hlt := counted.late.toNat_lt
          omega
        have hle : UInt32.ofNat lost.natAbs ≤ counted.late := by
          rw [UInt32.le_iff_toNat_le, hsmall]
          exact hvalue
        show (counted.late - UInt32.ofNat lost.natAbs).toNat ≤ counted.late.toNat
        rw [UInt32.toNat_sub_of_le _ _ hle]
        exact Nat.sub_le _ _
    · exact Nat.le_refl _

theorem lost_record_late (stats : PacketStats) : (stats.record 1 (-1)).lost = stats.lost := by
  have hneg : ¬ (-1 : Int) > 0 := by decide
  simp only [record, if_neg hneg]
  split_ifs <;> rfl

end PacketStats

namespace Link

/-- The accepted packets that arrived behind a later one, of a list with the last one first. -/
def behind : List Nat → Nat
  | [] => 0
  | index :: earlier => behind earlier + if index < earlier.foldr max 0 then 1 else 0

def missing (link : Link) : Nat :=
  (Finset.Icc 1 link.highest \ link.accepted.toFinset).card

structure PingCounters where
  good : Option UInt32
  late : Option UInt32
  lost : Option UInt32
  resync : Option UInt32
deriving DecidableEq

/-- `ping_loop` copies the snapshot of the shared statistics, which the reader publishes after
every accepted packet. -/
def ping (link : Link) : PingCounters :=
  let cryptoSnapshot := link.receiver.stats
  { good := some cryptoSnapshot.good
    late := some cryptoSnapshot.late
    lost := some cryptoSnapshot.lost
    resync := some cryptoSnapshot.resync }

structure Figures (link : Link) : Prop where
  good : link.ping.good.map UInt32.toNat = some link.accepted.length
  lost : link.ping.lost.map UInt32.toNat = some link.missing
  late : link.ping.late.map UInt32.toNat = some (behind link.accepted)

def Reports (link : Link) (event : LinkEvent) : Prop := (link.step event).Figures

/-- An accepted packet is not behind the highest one, and the counters have room for it. -/
def Countable (base : Nat) (link : Link) : LinkEvent → Prop
  | .encrypt _ => True
  | .deliver index =>
      link.Placeable base (.deliver index) →
        link.highest < index ∧ link.accepted.length + 1 < 2 ^ 32 ∧
          link.missing + (index - link.highest - 1) < 2 ^ 32

instance (base : Nat) (link : Link) : ∀ event, Decidable (link.Countable base event)
  | .encrypt _ => inferInstanceAs (Decidable True)
  | .deliver index =>
      inferInstanceAs (Decidable (link.Placeable base (.deliver index) →
        link.highest < index ∧ link.accepted.length + 1 < 2 ^ 32 ∧
          link.missing + (index - link.highest - 1) < 2 ^ 32))

/-! ## The invariant -/

/-- Both ends are in step, no packet was accepted twice, and the figures are right. -/
structure Counted (cipher : Cipher) (base : Nat) (link : Link) : Prop where
  synced : Synced cipher base link
  nodup : link.accepted.Nodup
  pos : ∀ index ∈ link.accepted, 1 ≤ index
  figures : Figures link

theorem le_highest {link : Link} {index : Nat} (h : index ∈ link.accepted) :
    index ≤ link.highest := by
  rw [highest]
  revert h
  induction link.accepted with
  | nil => exact fun h => absurd h List.not_mem_nil
  | cons other accepted ih =>
      intro h
      rw [List.foldr_cons]
      rcases List.mem_cons.mp h with rfl | hmem
      · exact Nat.le_max_left _ _
      · exact (ih hmem).trans (Nat.le_max_right _ _)

theorem missing_add_length {link : Link} (hnodup : link.accepted.Nodup)
    (hpos : ∀ index ∈ link.accepted, 1 ≤ index) :
    link.missing + link.accepted.length = link.highest := by
  have hsubset : link.accepted.toFinset ⊆ Finset.Icc 1 link.highest := by
    intro index hindex
    rw [List.mem_toFinset] at hindex
    exact Finset.mem_Icc.mpr ⟨hpos index hindex, le_highest hindex⟩
  calc link.missing + link.accepted.length
      = link.missing + link.accepted.toFinset.card := by rw [List.toFinset_card_of_nodup hnodup]
    _ = (Finset.Icc 1 link.highest).card := Finset.card_sdiff_add_card_eq_card hsubset
    _ = link.highest := by rw [Nat.card_Icc, Nat.add_sub_cancel]

theorem missing_cons {link : Link} {index : Nat} (hnodup : link.accepted.Nodup)
    (hpos : ∀ other ∈ link.accepted, 1 ≤ other) (hnew : index ∉ link.accepted)
    (hindex : 1 ≤ index) (receiver : Ocb2CryptState) (delivered : List Nat) :
    missing { link with receiver, delivered, accepted := index :: link.accepted } + 1 =
      link.missing + (index - link.highest) := by
  have hbefore := missing_add_length hnodup hpos
  have hafter : missing { link with receiver, delivered, accepted := index :: link.accepted } +
      (link.accepted.length + 1) = max index link.highest := by
    apply missing_add_length (List.nodup_cons.mpr ⟨hnew, hnodup⟩)
    intro other hother
    rcases List.mem_cons.mp hother with rfl | hmem
    · exact hindex
    · exact hpos other hmem
  omega

theorem figures_iff (link : Link) :
    link.Figures ↔ link.receiver.stats.good.toNat = link.accepted.length ∧
      link.receiver.stats.lost.toNat = link.missing ∧
      link.receiver.stats.late.toNat = behind link.accepted := by
  constructor
  · rintro ⟨hgood, hlost, hlate⟩
    exact ⟨Option.some.inj hgood, Option.some.inj hlost, Option.some.inj hlate⟩
  · rintro ⟨hgood, hlost, hlate⟩
    exact ⟨congrArg some hgood, congrArg some hlost, congrArg some hlate⟩

theorem ne_highest {cipher : Cipher} {base : Nat} {link : Link} (h : Synced cipher base link)
    {index : Nat} (hwindow : link.InWindow (.deliver index)) : index ≠ link.highest := by
  obtain ⟨hsome, hfresh, -, -⟩ := hwindow
  rintro rfl
  rcases link.highest_eq_or_mem with hzero | hmem
  · rw [hzero] at hsome
    cases hsome
  · exact hfresh (h.accepted_subset hmem)

theorem stats_ahead {cipher : Cipher} {base : Nat} {link : Link} (h : Synced cipher base link)
    {index : Nat} (hahead : link.highest < index)
    (hplace : index = link.highest + 1 ∨ (base + index) / 256 = (base + link.highest) / 256)
    {step : Ocb2CryptState.NonceStep}
    (hstep : Ocb2CryptState.stepNonce link.receiver.decryptIv (UInt8.ofNat (base + index)) =
      some step)
    (hiv : step.iv = Block.ofLeNat (base + index))
    (hrestore : step.restore = decide (index < link.highest)) :
    (link.receiver.accept step).stats =
      { link.receiver.stats with
        good := link.receiver.stats.good + 1
        lost := link.receiver.stats.lost + UInt32.ofNat (index - link.highest - 1) } := by
  have hfalse : step.restore = false := by
    rw [hrestore, decide_eq_false_iff_not]
    omega
  obtain ⟨hlate, hnext, hskip⟩ := (Ocb2CryptState.stepNonce_figures hstep).2 hfalse
  have hreceiver := h.receiverIv
  have hvalue : step.iv.leNat = (base + index) % 2 ^ 128 := by rw [hiv, Block.leNat_ofLeNat]
  have hlost : step.lost = ((index - link.highest - 1 : Nat) : Int) := by
    rcases hplace with hsucc | hblock
    · rw [hnext (by omega)]
      omega
    · rw [hskip (by omega)]
      omega
  show link.receiver.stats.record step.late step.lost = _
  rw [hlate, hlost, PacketStats.record_ahead]

/-- One delivery that is accepted: the figures stay right exactly when it is countable. -/
theorem figures_accepted_iff {cipher : Cipher} {base : Nat} {link : Link}
    (h : Counted cipher base link) {index : Nat} (hwindow : link.InWindow (.deliver index))
    (hplace : link.Placeable base (.deliver index)) :
    (link.step (.deliver index)).Figures ↔
      link.highest < index ∧ link.accepted.length + 1 < 2 ^ 32 ∧
        link.missing + (index - link.highest - 1) < 2 ^ 32 := by
  have hdone := step_deliver h.synced hwindow
  rw [if_pos hplace] at hdone
  obtain ⟨step, hstep, hiv, hrestore, hlink⟩ := hdone
  obtain ⟨hgood, hlost, hlate⟩ := (figures_iff link).mp h.figures
  have hne := ne_highest h.synced hwindow
  have hnew : index ∉ link.accepted := fun hmem => hwindow.2.1 (h.synced.accepted_subset hmem)
  have hindex : 1 ≤ index := by
    by_contra hzero
    obtain rfl : index = 0 := by omega
    cases hwindow.1
  have hmissing := missing_cons h.nodup h.pos hnew hindex (link.receiver.accept step)
    (index :: link.delivered)
  rw [hlink, figures_iff]
  show (link.receiver.accept step).stats.good.toNat = link.accepted.length + 1 ∧
    (link.receiver.accept step).stats.lost.toNat = _ ∧
    (link.receiver.accept step).stats.late.toNat =
      behind link.accepted + (if index < link.highest then 1 else 0) ↔ _
  rcases Nat.lt_or_gt_of_ne hne with hbehind | hahead
  · -- the loss of a late packet is not taken back
    have htrue : step.restore = true := by rw [hrestore, decide_eq_true hbehind]
    obtain ⟨hlate', hlost'⟩ := (Ocb2CryptState.stepNonce_figures hstep).1 htrue
    have hkept : (link.receiver.accept step).stats.lost = link.receiver.stats.lost := by
      show (link.receiver.stats.record step.late step.lost).lost = _
      rw [hlate', hlost', PacketStats.lost_record_late]
    constructor
    · rintro ⟨-, hwrong, -⟩
      rw [hkept] at hwrong
      omega
    · rintro ⟨hlt, -⟩
      omega
  · rw [stats_ahead h.synced hahead hplace.1 hstep hiv hrestore, if_neg (by omega)]
    have hlt := link.receiver.stats.lost.toNat_lt
    simp only [UInt32.toNat_add, UInt32.toNat_ofNat', UInt32.toNat_one, hgood, hlost]
    constructor
    · rintro ⟨hgood', hlost', -⟩
      omega
    · rintro ⟨-, hgood', hlost'⟩
      refine ⟨by omega, by omega, by omega⟩

theorem figures_of_eq {link link' : Link} (hstats : link'.receiver.stats = link.receiver.stats)
    (haccepted : link'.accepted = link.accepted) : link'.Figures ↔ link.Figures := by
  have hmissing : link'.missing = link.missing := by rw [missing, missing, highest, highest,
    haccepted]
  rw [figures_iff, figures_iff, hstats, haccepted, hmissing]

theorem reports_iff {cipher : Cipher} {base : Nat} {link : Link} (h : Counted cipher base link)
    {event : LinkEvent} (hwindow : link.InWindow event) :
    link.Reports event ↔ link.Countable base event := by
  cases event with
  | encrypt plaintext =>
      have hkept : (link.step (.encrypt plaintext)).Figures ↔ link.Figures := by
        rw [Link.step, Ocb2CryptState.encrypt_of_initialized h.synced.senderReady]
        exact figures_of_eq rfl rfl
      exact iff_of_true (hkept.mpr h.figures) trivial
  | deliver index =>
      by_cases hplace : link.Placeable base (.deliver index)
      · exact (figures_accepted_iff h hwindow hplace).trans
          ⟨fun hcount _ => hcount, fun hcount => hcount hplace⟩
      · have hdone := step_deliver h.synced hwindow
        rw [if_neg hplace] at hdone
        have hkept : (link.step (.deliver index)).Figures ↔ link.Figures := by
          rw [hdone]
          exact figures_of_eq rfl rfl
        exact iff_of_true (hkept.mpr h.figures) fun hyes => absurd hyes hplace

/-- A step within the window accepts at most the delivered number, and not twice. -/
theorem accepted_step {cipher : Cipher} {base : Nat} {link : Link} (h : Synced cipher base link)
    {event : LinkEvent} (hwindow : link.InWindow event) :
    (link.step event).accepted = link.accepted ∨
      ∃ index, 1 ≤ index ∧ index ∉ link.accepted ∧
        (link.step event).accepted = index :: link.accepted := by
  cases event with
  | encrypt plaintext =>
      left
      rw [Link.step, Ocb2CryptState.encrypt_of_initialized h.senderReady]
  | deliver index =>
      have hdone := step_deliver h hwindow
      split_ifs at hdone with hplace
      · obtain ⟨step, -, -, -, hlink⟩ := hdone
        refine .inr ⟨index, ?_, fun hmem => hwindow.2.1 (h.accepted_subset hmem), ?_⟩
        · by_contra hzero
          obtain rfl : index = 0 := by omega
          cases hwindow.1
        · rw [hlink]
      · left
        rw [hdone]

theorem counted_step {cipher : Cipher} {base : Nat} {link : Link} {event : LinkEvent}
    (h : Counted cipher base link) (hwindow : link.InWindow event)
    (hcount : link.Countable base event) : Counted cipher base (link.step event) := by
  have hfigures := (reports_iff h hwindow).mpr hcount
  rcases accepted_step h.synced hwindow with heq | ⟨index, hindex, hnew, heq⟩
  · refine ⟨synced_step h.synced hwindow, ?_, ?_, hfigures⟩
    · rw [heq]
      exact h.nodup
    · rw [heq]
      exact h.pos
  · refine ⟨synced_step h.synced hwindow, ?_, ?_, hfigures⟩
    · rw [heq]
      exact List.nodup_cons.mpr ⟨hnew, h.nodup⟩
    · rw [heq]
      intro other hother
      rcases List.mem_cons.mp hother with rfl | hmem
      · exact hindex
      · exact h.pos other hmem

theorem counted_start {aes : Aes128} {s sender receiver : Ocb2CryptState}
    {key nonce other other' : List UInt8}
    (hsender : s.setKey aes key nonce other = .ok sender)
    (hreceiver : (Ocb2CryptState.new aes).setKey aes key other' nonce = .ok receiver) :
    ∃ cipher, Counted cipher (Bytes.leNat nonce) (start sender receiver) := by
  obtain ⟨cipher, hstart⟩ := inStep_start hsender hreceiver
  obtain ⟨_, _, _, -, -, -, rfl⟩ := Ocb2CryptState.setKey_eq_ok_iff.mp hreceiver
  exact ⟨cipher, hstart.synced, List.nodup_nil, (fun _ h => nomatch h), ⟨rfl, rfl, rfl⟩⟩

/-! ## Whole runs -/

theorem along_reports_iff {cipher : Cipher} {base : Nat} {link : Link}
    (hlink : Counted cipher base link) {events : List LinkEvent}
    (hwindow : Along step InWindow link events) :
    Along step Reports link events ↔ Along step (Countable base) link events := by
  refine Runs.along_iff_along ?_ ?_ hlink hwindow
  · exact fun _ _ h hw => reports_iff h hw
  · exact fun _ _ h hw hcount => counted_step h hw hcount

/-- In every run within the window, the figures are right after every packet exactly when
no accepted packet is late and no counter runs over. -/
theorem reports_run_iff {aes : Aes128} {s sender receiver : Ocb2CryptState}
    {key nonce other other' : List UInt8}
    (hsender : s.setKey aes key nonce other = .ok sender)
    (hreceiver : (Ocb2CryptState.new aes).setKey aes key other' nonce = .ok receiver)
    {events : List LinkEvent}
    (hwindow : Along step InWindow (start sender receiver) events) :
    Along step Reports (start sender receiver) events ↔
      Along step (Countable (Bytes.leNat nonce)) (start sender receiver) events := by
  obtain ⟨cipher, hstart⟩ := counted_start hsender hreceiver
  exact along_reports_iff hstart hwindow

section Example

theorem reports_run_iff_example :
    Along step Reports (start exampleState exampleState) exampleRun ↔
      Along step (Countable (Bytes.leNat (Block.ofLeNat 250).bytes))
        (start exampleState exampleState) exampleRun :=
  reports_run_iff setKey_exampleState setKey_exampleState (by decide)

/-- The second packet arrives after the third: it is counted as lost for ever. -/
theorem late_packet_stays_lost :
    ¬ ∀ (aes : Aes128) (s sender receiver : Ocb2CryptState)
      (key nonce other other' : List UInt8) (events : List LinkEvent),
      s.setKey aes key nonce other = .ok sender →
      (Ocb2CryptState.new aes).setKey aes key other' nonce = .ok receiver →
      Along step InWindow (start sender receiver) events →
      Along step Reports (start sender receiver) events := by
  intro h
  let events : List LinkEvent :=
    List.replicate 3 (.encrypt []) ++ [.deliver 1, .deliver 3, .deliver 2]
  have hwindow : Along step InWindow (start exampleState exampleState) events := by decide
  have hreports := h _ _ _ _ _ _ _ _ events setKey_exampleState setKey_exampleState hwindow
  obtain ⟨cipher, hstart⟩ := counted_start setKey_exampleState setKey_exampleState
  have hcount := (along_reports_iff hstart hwindow).mp hreports
  revert hcount
  decide

end Example

end Link

end FancyMumble.Transport.Ocb2
