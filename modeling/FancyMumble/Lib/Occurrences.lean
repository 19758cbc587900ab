import Mathlib.Data.List.Infix

/-!
# Occurrences of a pattern in a text

The first occurrence of a pattern, and where a pattern can occur in a text that is put together
from parts.
-/

namespace FancyMumble.Lib.Occurrences

variable {α : Type*} {pattern text front back : List α} {c head : α} {i : ℕ}

theorem forall_of_all {p : α → Prop} [DecidablePred p] {xs : List α}
    (h : xs.all (fun x => decide (p x)) = true) : ∀ x ∈ xs, p x :=
  fun x hx => of_decide_eq_true (List.all_eq_true.mp h x hx)

/-! ## Texts put together -/

theorem prefix_append_cons_iff (hc : c ∉ pattern) :
    pattern <+: front ++ c :: back ↔ pattern <+: front := by
  constructor
  · intro h
    refine (List.prefix_append_right_inj []).mp ?_
    rcases List.prefix_or_prefix_of_prefix h (List.prefix_append front (c :: back)) with h' | h'
    · exact h'
    · -- otherwise the pattern goes on behind the front, with `c`
      obtain ⟨rest, rfl⟩ := h'
      rw [List.prefix_append_right_inj] at h
      cases rest with
      | nil => simp
      | cons c' rest =>
          rw [List.cons_prefix_cons] at h
          rw [h.1] at hc
          exact absurd (List.mem_append_right _ List.mem_cons_self) hc
  · exact fun h => h.trans (List.prefix_append _ _)

theorem infix_append_cons_iff (hc : c ∉ pattern) (hpattern : pattern ≠ []) :
    pattern <:+: front ++ c :: back ↔ pattern <:+: front ∨ pattern <:+: back := by
  induction front with
  | nil =>
      have hnil : ¬pattern <+: c :: back := by
        rw [← List.nil_append (c :: back), prefix_append_cons_iff hc, List.prefix_nil]
        exact hpattern
      rw [List.nil_append, List.infix_cons_iff, List.infix_nil]
      exact or_congr (iff_of_false hnil hpattern) Iff.rfl
  | cons c' front ih =>
      rw [List.cons_append, List.infix_cons_iff, ih, List.infix_cons_iff, or_assoc,
        ← List.cons_append, prefix_append_cons_iff hc]

theorem infix_append_iff_of_notMem (hhead : head ∉ front) :
    head :: pattern <:+: front ++ back ↔ head :: pattern <:+: back := by
  induction front with
  | nil => exact Iff.rfl
  | cons c front ih =>
      rw [List.mem_cons, not_or] at hhead
      rw [List.cons_append, List.infix_cons_iff, List.cons_prefix_cons, ih hhead.2]
      exact or_iff_right fun h => hhead.1 h.1

theorem infix_cons_iff_of_ne (hne : head ≠ c) :
    head :: pattern <:+: c :: text ↔ head :: pattern <:+: text := by
  have hhead : head ∉ [c] := fun hmem => hne (List.mem_singleton.mp hmem)
  exact infix_append_iff_of_notMem hhead

theorem exists_of_notMem (hc : c ∉ pattern) (h : front ++ c :: back = pattern ++ text) :
    ∃ rest, front = pattern ++ rest ∧ rest ++ c :: back = text := by
  rcases List.append_eq_append_iff.mp h with ⟨rest, rfl, hback⟩ | ⟨rest, hfront, htext⟩
  · cases rest with
    | nil =>
        rw [List.append_nil]
        exact ⟨[], (List.append_nil _).symm, hback⟩
    | cons c' rest =>
        obtain ⟨rfl, -⟩ := List.cons_eq_cons.mp hback
        exact absurd (List.mem_append_right _ List.mem_cons_self) hc
  · exact ⟨rest, hfront, htext.symm⟩

/-! ## Separators -/

theorem of_mem_splitOnP {separates : α → Bool} {part : List α}
    (h : part ∈ text.splitOnP separates) : ∀ c ∈ part, separates c = false := by
  induction text generalizing part with
  | nil =>
      rw [List.splitOnP_nil, List.mem_singleton] at h
      subst h
      exact fun c hc => absurd hc List.not_mem_nil
  | cons head text ih =>
      rw [List.splitOnP_cons_eq_if_modifyHead] at h
      cases hhead : separates head with
      | true =>
          rw [if_pos hhead] at h
          cases h with
          | head => exact fun c hc => absurd hc List.not_mem_nil
          | tail _ hrest => exact ih hrest
      | false =>
          rw [if_neg (by rw [hhead]; exact Bool.false_ne_true)] at h
          cases hsplit : text.splitOnP separates with
          | nil => exact absurd hsplit (List.splitOnP_ne_nil _ _)
          | cons first rest =>
              rw [hsplit, List.modifyHead_cons] at h
              cases h with
              | head =>
                  have hfirst := ih (hsplit ▸ List.mem_cons_self)
                  exact List.forall_mem_cons.mpr ⟨hhead, hfirst⟩
              | tail _ hrest => exact ih (hsplit ▸ List.mem_cons_of_mem _ hrest)

theorem notMem_of_mem_splitOn [BEq α] [LawfulBEq α] {part : List α}
    (h : part ∈ text.splitOn c) : c ∉ part := by
  rw [List.splitOn_eq_splitOnP] at h
  intro hc
  have hne := of_mem_splitOnP h c hc
  rw [beq_self_eq_true] at hne
  exact Bool.false_ne_true hne.symm

theorem intercalate_flatMap_splitOnP {β : Type*} {separates : β → Bool} {f : β → List α}
    (hc : ∀ b, separates b = true → f b = [c]) (l : List β) :
    [c].intercalate ((l.splitOnP separates).map (List.flatMap f)) = l.flatMap f := by
  induction l with
  | nil => rfl
  | cons b l ih =>
      have hne : l.splitOnP separates ≠ [] := List.splitOnP_ne_nil _ _
      rw [List.splitOnP_cons_eq_if_modifyHead, List.flatMap_cons]
      cases hb : separates b with
      | true =>
          have hparts : (l.splitOnP separates).map (List.flatMap f) ≠ [] := by simp [hne]
          rw [if_pos rfl, List.map_cons, List.intercalate_cons_of_ne_nil hparts, ih, hc b hb]
          rfl
      | false =>
          rw [if_neg Bool.false_ne_true]
          cases hsplit : l.splitOnP separates with
          | nil => exact absurd hsplit hne
          | cons part parts =>
              rw [hsplit, List.map_cons] at ih
              rw [List.modifyHead_cons, List.map_cons, List.flatMap_cons, ← ih]
              cases hrest : parts.map (List.flatMap f) with
              | nil => rw [List.intercalate_singleton, List.intercalate_singleton]
              | cons next rest =>
                  rw [List.intercalate_cons_cons, List.intercalate_cons_cons, List.append_assoc,
                    List.append_assoc, List.append_assoc]

/-! ## The first occurrence -/

variable [DecidableEq α]

def indexOf (pattern : List α) : List α → Option ℕ
  | [] => if pattern = [] then some 0 else none
  | c :: text =>
      if pattern <+: c :: text then some 0 else (indexOf pattern text).map (· + 1)

theorem indexOf_eq_none_iff : indexOf pattern text = none ↔ ¬pattern <:+: text := by
  induction text with
  | nil => simp [indexOf]
  | cons c text ih =>
      rw [List.infix_cons_iff, not_or, ← ih, indexOf]
      by_cases hbegins : pattern <+: c :: text
      · simp [hbegins]
      · simp [hbegins]

theorem prefix_drop_of_indexOf (h : indexOf pattern text = some i) : pattern <+: text.drop i := by
  induction text generalizing i with
  | nil =>
      obtain ⟨rfl, -⟩ := Option.ite_none_right_eq_some.mp h
      exact List.nil_prefix
  | cons c text ih =>
      unfold indexOf at h
      split at h
      · next hbegins =>
          cases h
          exact hbegins
      · obtain ⟨j, hj, rfl⟩ := Option.map_eq_some_iff.mp h
        exact ih hj

theorem exists_indexOf_le (hi : i ≤ text.length) (h : pattern <+: text.drop i) :
    ∃ j ≤ i, indexOf pattern text = some j := by
  induction text generalizing i with
  | nil =>
      obtain rfl : i = 0 := Nat.le_zero.mp hi
      exact ⟨0, le_rfl, if_pos (List.prefix_nil.mp h)⟩
  | cons c text ih =>
      unfold indexOf
      by_cases hbegins : pattern <+: c :: text
      · exact ⟨0, Nat.zero_le i, if_pos hbegins⟩
      · cases i with
        | zero => exact absurd h hbegins
        | succ i =>
            obtain ⟨j, hj, hindex⟩ := ih (Nat.le_of_succ_le_succ hi) h
            refine ⟨j + 1, Nat.succ_le_succ hj, ?_⟩
            rw [if_neg hbegins, hindex, Option.map_some]

theorem indexOf_append (hc : c ∉ pattern) (hpattern : pattern ≠ [])
    (h : ¬pattern <:+: front) :
    indexOf pattern (front ++ c :: (pattern ++ back)) = some (front.length + 1) := by
  induction front with
  | nil =>
      have hfirst : ¬pattern <+: c :: (pattern ++ back) := by
        rw [← List.nil_append (c :: _), prefix_append_cons_iff hc, List.prefix_nil]
        exact hpattern
      have hhere : indexOf pattern (pattern ++ back) = some 0 := by
        obtain ⟨j, hj, hindex⟩ := exists_indexOf_le (Nat.zero_le _)
          (List.prefix_append pattern back : pattern <+: (pattern ++ back).drop 0)
        rw [hindex, Nat.le_zero.mp hj]
      rw [List.nil_append, indexOf, if_neg hfirst, hhere]
      rfl
  | cons c' front ih =>
      rw [List.infix_cons_iff, not_or] at h
      have hfirst : ¬pattern <+: c' :: (front ++ c :: (pattern ++ back)) := by
        rw [← List.cons_append, prefix_append_cons_iff hc]
        exact h.1
      rw [List.cons_append, indexOf, if_neg hfirst, ih h.2]
      rfl

theorem indexOf_singleton (hc : c ∉ front) :
    indexOf [c] (front ++ c :: back) = some front.length := by
  induction front with
  | nil =>
      have hhere : [c] <+: c :: back := List.prefix_append [c] back
      rw [List.nil_append, indexOf, if_pos hhere]
      rfl
  | cons c' front ih =>
      rw [List.mem_cons, not_or] at hc
      have hfirst : ¬[c] <+: c' :: (front ++ c :: back) := fun h =>
        hc.1 (List.cons_prefix_cons.mp h).1
      rw [List.cons_append, indexOf, if_neg hfirst, ih hc.2]
      rfl

theorem exists_split_of_indexOf_singleton (h : indexOf [c] text = some i) :
    ∃ front back, c ∉ front ∧ text = front ++ c :: back := by
  have hmem : c ∈ text.drop i := (prefix_drop_of_indexOf h).subset List.mem_cons_self
  obtain ⟨front, back, htext, hfront⟩ := List.eq_append_cons_of_mem (List.mem_of_mem_drop hmem)
  exact ⟨front, back, hfront, htext⟩

/-! ## Replacing all occurrences -/

/-- What stands in the place of the occurrences, from left to right, behind a number of elements
that belong to an occurrence already replaced. -/
def replaceBehind (pattern replacement : List α) : ℕ → List α → List α
  | _, [] => []
  | skip + 1, _ :: text => replaceBehind pattern replacement skip text
  | 0, c :: text =>
      if pattern <+: c :: text then
        replacement ++ replaceBehind pattern replacement (pattern.length - 1) text
      else c :: replaceBehind pattern replacement 0 text

def replaceAll (pattern replacement text : List α) : List α :=
  replaceBehind pattern replacement 0 text

variable {replacement : List α}

theorem replaceBehind_eq (skip : ℕ) (text : List α) :
    replaceBehind pattern replacement skip text =
      replaceAll pattern replacement (text.drop skip) := by
  induction text generalizing skip with
  | nil =>
      rw [List.drop_nil]
      cases skip <;> rfl
  | cons c text ih =>
      cases skip with
      | zero => rfl
      | succ skip => rw [replaceBehind, List.drop_succ_cons, ih]

theorem replaceAll_pattern_append (hpattern : pattern ≠ []) (text : List α) :
    replaceAll pattern replacement (pattern ++ text) =
      replacement ++ replaceAll pattern replacement text := by
  cases pattern with
  | nil => exact absurd rfl hpattern
  | cons head pattern =>
      have hhere : head :: pattern <+: head :: (pattern ++ text) :=
        List.prefix_append (head :: pattern) text
      rw [List.cons_append, replaceAll, replaceBehind, if_pos hhere, replaceBehind_eq,
        List.length_cons, Nat.add_sub_cancel, List.drop_left]

theorem replaceAll_append_of_forall
    (h : ∀ i < front.length, ¬pattern <+: (front ++ back).drop i) :
    replaceAll pattern replacement (front ++ back) =
      front ++ replaceAll pattern replacement back := by
  induction front with
  | nil => rfl
  | cons c front ih =>
      have hhere : ¬pattern <+: c :: (front ++ back) := h 0 (Nat.zero_lt_succ _)
      have hlater := ih fun i hi => h (i + 1) (Nat.succ_lt_succ hi)
      rw [List.cons_append, replaceAll, replaceBehind, if_neg hhere, List.cons_append, ← hlater]
      rfl

end FancyMumble.Lib.Occurrences
