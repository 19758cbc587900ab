import Mathlib.Data.Set.Card

/-!
# Tallies

Ballots are kept in a list, the latest one of each voter. A ballot may name a choice more than
once; when is the number of times a choice is named the number of voters who name it?
-/

namespace FancyMumble.Lib.Tally

variable {α κ ι : Type*} (voter : α → κ)

def cast [DecidableEq κ] (ballots : List α) (ballot : α) : List α :=
  ballots.filter (fun b => voter b ≠ voter ballot) ++ [ballot]

structure Holds (ballots : List α) (latest : κ → Option α) : Prop where
  nodup : (ballots.map voter).Nodup
  mem_iff : ∀ ballot, ballot ∈ ballots ↔ latest (voter ballot) = some ballot
  voter_eq : ∀ k ballot, latest k = some ballot → voter ballot = k

variable {voter} {ballots : List α} {latest : κ → Option α}

theorem holds_nil : Holds voter [] fun _ => none where
  nodup := List.nodup_nil
  mem_iff := by simp
  voter_eq := by intro k ballot h; cases h

variable [DecidableEq κ]

theorem Holds.cast (h : Holds voter ballots latest) (ballot : α) :
    Holds voter (cast voter ballots ballot)
      (Function.update latest (voter ballot) (some ballot)) where
  nodup := by
    unfold Tally.cast
    rw [List.map_append, List.nodup_append]
    refine ⟨h.nodup.sublist (List.filter_sublist.map voter), List.nodup_singleton _, ?_⟩
    intro k hk k' hk'
    obtain ⟨b, hb, rfl⟩ := List.mem_map.mp hk
    obtain rfl := List.mem_singleton.mp hk'
    exact of_decide_eq_true (List.mem_filter.mp hb).2
  mem_iff := by
    intro b
    unfold Tally.cast
    rw [List.mem_append, List.mem_filter, List.mem_singleton, Function.update_apply, h.mem_iff]
    split
    next hsame =>
      simp only [hsame, ne_eq, not_true_eq_false, decide_false, Bool.false_eq_true, and_false,
        false_or, Option.some.injEq]
      exact eq_comm
    next hother =>
      simp only [ne_eq, hother, not_false_eq_true, decide_true, and_true, or_iff_left_iff_imp]
      rintro rfl
      exact absurd rfl hother
  voter_eq := by
    intro k b hb
    rw [Function.update_apply] at hb
    split at hb
    next hk => cases hb; exact hk.symm
    next => exact h.voter_eq k b hb

variable [DecidableEq ι] (chosen : α → List ι) (choice : ι)

def tally (ballots : List α) : ℕ := (ballots.map fun b => (chosen b).count choice).sum

def supporters (latest : κ → Option α) : Set κ :=
  {k | ∃ ballot, latest k = some ballot ∧ choice ∈ chosen ballot}

variable {chosen choice}

theorem ncard_supporters (h : Holds voter ballots latest) :
    (supporters chosen choice latest).ncard =
      (ballots.filter fun b => choice ∈ chosen b).length := by
  have hset : supporters chosen choice latest =
      (((ballots.filter fun b => choice ∈ chosen b).map voter).toFinset : Set κ) := by
    ext k
    simp only [supporters, Set.mem_ofPred_eq, List.coe_toFinset, List.mem_map, List.mem_filter,
      decide_eq_true_eq]
    constructor
    · rintro ⟨b, hb, hchoice⟩
      have hk := h.voter_eq k b hb
      exact ⟨b, ⟨(h.mem_iff b).mpr (hk ▸ hb), hchoice⟩, hk⟩
    · rintro ⟨b, ⟨hb, hchoice⟩, rfl⟩
      exact ⟨b, (h.mem_iff b).mp hb, hchoice⟩
  rw [hset, Set.ncard_coe_finset,
    List.toFinset_card_of_nodup (h.nodup.sublist (List.filter_sublist.map voter)),
    List.length_map]

/-- A choice is named as often as there are ballots that name it if and only if none of them names
it twice. -/
theorem tally_eq_length_filter_iff :
    tally chosen choice ballots = (ballots.filter fun b => choice ∈ chosen b).length ↔
      ∀ b ∈ ballots, (chosen b).count choice ≤ 1 := by
  have hle : ∀ bs : List α,
      (bs.filter fun b => choice ∈ chosen b).length ≤ tally chosen choice bs := by
    intro bs
    induction bs with
    | nil => exact le_rfl
    | cons b bs ih =>
        simp only [tally, List.map_cons, List.sum_cons] at ih ⊢
        by_cases hb : choice ∈ chosen b
        · have := List.count_pos_iff.mpr hb
          simp only [hb, decide_true, List.filter_cons_of_pos, List.length_cons]
          omega
        · simp only [hb, decide_false, Bool.false_eq_true, not_false_eq_true,
            List.filter_cons_of_neg]
          omega
  induction ballots with
  | nil => simp [tally]
  | cons b bs ih =>
      have hbs := hle bs
      simp only [tally, List.map_cons, List.sum_cons, List.forall_mem_cons] at ih hbs ⊢
      refine Iff.trans ?_ (and_congr_right fun _ => ih)
      by_cases hb : choice ∈ chosen b
      · have := List.count_pos_iff.mpr hb
        simp only [hb, decide_true, List.filter_cons_of_pos, List.length_cons]
        omega
      · simp only [hb, decide_false, Bool.false_eq_true, not_false_eq_true,
          List.filter_cons_of_neg, List.count_eq_zero.mpr hb]
        omega

theorem tally_eq_ncard_supporters_iff (h : Holds voter ballots latest) :
    tally chosen choice ballots = (supporters chosen choice latest).ncard ↔
      ∀ b ∈ ballots, (chosen b).count choice ≤ 1 := by
  rw [ncard_supporters h]
  exact tally_eq_length_filter_iff

end FancyMumble.Lib.Tally
