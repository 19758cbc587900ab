import FancyMumble.Lib.Grouping
import Mathlib.Data.List.Rotate
import Mathlib.Order.Lattice

/-!
# Choices that depend on an order

The first smallest entry, the last largest one: each takes one of several eligible
entries, and which one depends on the order of the list. Such a choice is the same for all
orders exactly if nothing tells the eligible entries apart.
-/

namespace FancyMumble.Lib.Choice

open Lib.Grouping

variable {α β κ : Type}

/-- `choose` takes an eligible entry of a list if there is one, and every eligible entry
is taken in some rotation of the list. -/
structure Chooses (choose : List α → Option α) (Eligible : List α → α → Prop) : Prop where
  eligible : ∀ {entries a}, choose entries = some a → Eligible entries a
  exists_of_eligible : ∀ {entries a}, Eligible entries a → ∃ b, choose entries = some b
  taken : ∀ {entries a}, Eligible entries a → ∃ n, choose (entries.rotate n) = some a
  perm : ∀ {entries entries' : List α} {a}, entries.Perm entries' → Eligible entries a →
    Eligible entries' a

namespace Chooses

variable {choose : List α → Option α} {Eligible : List α → α → Prop}

theorem eq_none_iff (h : Chooses choose Eligible) {entries : List α} :
    choose entries = none ↔ ∀ a, ¬Eligible entries a := by
  constructor
  · intro hnone a ha
    obtain ⟨b, hb⟩ := h.exists_of_eligible ha
    rw [hnone] at hb
    cases hb
  · intro hnone
    cases hchoose : choose entries with
    | none => rfl
    | some a => exact absurd (h.eligible hchoose) (hnone a)

theorem eligible_of_perm (h : Chooses choose Eligible) {entries entries' : List α} {a : α}
    (hperm : entries'.Perm entries) (ha : choose entries' = some a) : Eligible entries a :=
  h.perm hperm (h.eligible ha)

/-- What can be chosen from the orders of a list: an eligible entry, or nothing if no entry
is eligible. -/
def Possible (Eligible : List α → α → Prop) (entries : List α) : Option α → Prop
  | some a => Eligible entries a
  | none => ∀ a, ¬Eligible entries a

theorem possible_of_perm (h : Chooses choose Eligible) {entries order : List α}
    (hperm : order.Perm entries) : Possible Eligible entries (choose order) := by
  cases hchoose : choose order with
  | some a => exact h.eligible_of_perm hperm hchoose
  | none => exact fun a ha => h.eq_none_iff.mp hchoose a (h.perm hperm.symm ha)

theorem exists_rotate_of_possible (h : Chooses choose Eligible) {entries : List α}
    {chosen : Option α} (hpossible : Possible Eligible entries chosen) :
    ∃ n, choose (entries.rotate n) = chosen := by
  cases chosen with
  | some a => exact h.taken hpossible
  | none => exact ⟨0, by rw [List.rotate_zero, h.eq_none_iff.mpr hpossible]⟩

theorem forall_perm_iff {choose' : List α → Option α} {Eligible' : List α → α → Prop}
    (h : Chooses choose Eligible) (h' : Chooses choose' Eligible') (f g : Option α → β)
    (entries entries' : List α) :
    (∀ order order', order.Perm entries → order'.Perm entries' →
        f (choose order) = g (choose' order')) ↔
      ∀ chosen chosen', Possible Eligible entries chosen → Possible Eligible' entries' chosen' →
        f chosen = g chosen' := by
  constructor
  · intro hsame chosen chosen' hpossible hpossible'
    obtain ⟨n, rfl⟩ := h.exists_rotate_of_possible hpossible
    obtain ⟨m, rfl⟩ := h'.exists_rotate_of_possible hpossible'
    exact hsame _ _ (List.rotate_perm _ _) (List.rotate_perm _ _)
  · intro hsame order order' hperm hperm'
    exact hsame _ _ (h.possible_of_perm hperm) (h'.possible_of_perm hperm')

end Chooses

/-! ## Rotations -/

theorem exists_rotate_eq_cons {entries : List α} {a : α} (h : a ∈ entries) :
    ∃ n rest, entries.rotate n = a :: rest := by
  obtain ⟨before, after, rfl⟩ := List.append_of_mem h
  exact ⟨before.length, after ++ before, List.rotate_append_length_eq _ _⟩

theorem exists_rotate_eq_append {entries : List α} {a : α} (h : a ∈ entries) :
    ∃ n rest, entries.rotate n = rest ++ [a] := by
  obtain ⟨before, after, rfl⟩ := List.append_of_mem h
  refine ⟨(before ++ [a]).length, after ++ before, ?_⟩
  have hsplit : before ++ a :: after = (before ++ [a]) ++ after := by simp
  rw [hsplit, List.rotate_append_length_eq, List.append_assoc]

def rotated (n : Nat) : HashOrder where
  visit := fun entries => entries.rotate n
  perm := fun entries => List.rotate_perm entries n

/-! ## Smallest and largest entries -/

def minByKey [LE κ] [DecidableLE κ] (f : α → κ) : List α → Option α
  | [] => none
  | a :: rest =>
      match minByKey f rest with
      | none => some a
      | some b => if f a ≤ f b then some a else some b

def IsSmallest [LE κ] (f : α → κ) (entries : List α) (a : α) : Prop :=
  a ∈ entries ∧ ∀ b ∈ entries, f a ≤ f b

def IsLargest (f : α → Nat) (entries : List α) (a : α) : Prop :=
  a ∈ entries ∧ ∀ b ∈ entries, f b ≤ f a

theorem minByKey_eq_none_iff [LE κ] [DecidableLE κ] {f : α → κ} {entries : List α} :
    minByKey f entries = none ↔ entries = [] := by
  cases entries with
  | nil => exact Iff.intro (fun _ => rfl) (fun _ => rfl)
  | cons a rest =>
      unfold minByKey
      split
      · simp
      · split <;> simp

section Smallest

variable [LinearOrder κ]

theorem isSmallest_of_minByKey {f : α → κ} {entries : List α} {a : α}
    (h : minByKey f entries = some a) : IsSmallest f entries a := by
  induction entries generalizing a with
  | nil => cases h
  | cons b rest ih =>
      unfold minByKey at h
      split at h
      · next hnone =>
          obtain rfl := Option.some.inj h
          obtain rfl := minByKey_eq_none_iff.mp hnone
          exact ⟨List.mem_cons_self, by simp⟩
      · next c hc =>
          obtain ⟨hmem, hle⟩ := ih hc
          split at h
          · next hbc =>
              obtain rfl := Option.some.inj h
              refine ⟨List.mem_cons_self, fun d hd => ?_⟩
              rcases List.mem_cons.mp hd with rfl | hd
              · exact le_refl _
              · exact hbc.trans (hle d hd)
          · next hbc =>
              obtain rfl := Option.some.inj h
              refine ⟨List.mem_cons_of_mem b hmem, fun d hd => ?_⟩
              rcases List.mem_cons.mp hd with rfl | hd
              · exact (not_le.mp hbc).le
              · exact hle d hd

theorem minByKey_cons_of_isSmallest {f : α → κ} {rest : List α} {a : α}
    (h : IsSmallest f (a :: rest) a) : minByKey f (a :: rest) = some a := by
  unfold minByKey
  split
  · rfl
  · next b hb =>
      have hmem := (isSmallest_of_minByKey hb).1
      rw [if_pos (h.2 b (List.mem_cons_of_mem a hmem))]

theorem IsSmallest.perm {f : α → κ} {entries entries' : List α} {a : α}
    (h : IsSmallest f entries a) (hperm : entries.Perm entries') :
    IsSmallest f entries' a :=
  ⟨hperm.mem_iff.mp h.1, fun b hb => h.2 b (hperm.mem_iff.mpr hb)⟩

theorem chooses_minByKey (f : α → κ) : Chooses (minByKey f) (IsSmallest f) where
  eligible := isSmallest_of_minByKey
  exists_of_eligible := fun {entries a} ha => by
    cases hmin : minByKey f entries with
    | some b => exact ⟨b, rfl⟩
    | none =>
        rw [minByKey_eq_none_iff.mp hmin] at ha
        exact absurd ha.1 List.not_mem_nil
  taken := fun {entries a} ha => by
    obtain ⟨n, rest, hn⟩ := exists_rotate_eq_cons ha.1
    refine ⟨n, ?_⟩
    rw [hn]
    exact minByKey_cons_of_isSmallest (hn ▸ ha.perm (List.rotate_perm entries n).symm)
  perm := fun hperm ha => ha.perm hperm

end Smallest

theorem isLargest_of_maxByKey {f : α → Nat} {entries : List α} {a : α}
    (h : maxByKey f entries = some a) : IsLargest f entries a := by
  refine ⟨mem_of_maxByKey h, ?_⟩
  induction entries generalizing a with
  | nil => cases h
  | cons b rest ih =>
      intro d hd
      unfold maxByKey at h
      split at h
      · next hnone =>
          obtain rfl := Option.some.inj h
          have hrest : rest = [] := by
            by_contra hne
            obtain ⟨c, hc⟩ := maxByKey_isSome (f := f) hne
            rw [hnone] at hc
            cases hc
          rw [hrest, List.mem_singleton] at hd
          exact le_of_eq (by rw [hd])
      · next c hc =>
          have hle := ih hc
          split at h
          · next hbc =>
              obtain rfl := Option.some.inj h
              rcases List.mem_cons.mp hd with rfl | hd
              · exact hbc
              · exact hle d hd
          · next hbc =>
              obtain rfl := Option.some.inj h
              rcases List.mem_cons.mp hd with rfl | hd
              · exact le_refl _
              · exact (hle d hd).trans (Nat.le_of_lt (Nat.lt_of_not_le hbc))

theorem maxByKey_append_of_isLargest {f : α → Nat} {rest : List α} {a : α}
    (h : IsLargest f (rest ++ [a]) a) : maxByKey f (rest ++ [a]) = some a := by
  induction rest with
  | nil => rfl
  | cons b rest ih =>
      have hrest : IsLargest f (rest ++ [a]) a :=
        ⟨List.mem_append_right _ List.mem_cons_self,
          fun d hd => h.2 d (List.mem_cons_of_mem b hd)⟩
      rw [List.cons_append]
      unfold maxByKey
      rw [ih hrest]
      exact if_pos (h.2 b List.mem_cons_self)

theorem IsLargest.perm {f : α → Nat} {entries entries' : List α} {a : α}
    (h : IsLargest f entries a) (hperm : entries.Perm entries') : IsLargest f entries' a :=
  ⟨hperm.mem_iff.mp h.1, fun b hb => h.2 b (hperm.mem_iff.mpr hb)⟩

theorem chooses_maxByKey (f : α → Nat) : Chooses (maxByKey f) (IsLargest f) where
  eligible := isLargest_of_maxByKey
  exists_of_eligible := fun ha => maxByKey_isSome (List.ne_nil_of_mem ha.1)
  taken := fun {entries a} ha => by
    obtain ⟨n, rest, hn⟩ := exists_rotate_eq_append ha.1
    refine ⟨n, ?_⟩
    rw [hn]
    exact maxByKey_append_of_isLargest (hn ▸ ha.perm (List.rotate_perm entries n).symm)
  perm := fun hperm ha => ha.perm hperm

end FancyMumble.Lib.Choice
