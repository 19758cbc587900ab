import Mathlib.Data.List.Basic

/-!
# Settling values

A value that is set by answers which are under way, each of which may leave it as it is. When
all of them have arrived in their order, the last one that sets it decides.
-/

namespace FancyMumble.Lib.Settling

variable {α β : Type} (effect : α → Option β)

def lastSet (answers : List α) : Option β := (answers.filterMap effect).getLast?

def settled (value : β) (answers : List α) : β := (lastSet effect answers).getD value

variable {effect} {answers : List α} {a : α} {value : β}

@[simp] theorem settled_nil : settled effect value [] = value := rfl

theorem lastSet_eq_none_iff : lastSet effect answers = none ↔ ∀ a ∈ answers, effect a = none := by
  unfold lastSet
  rw [List.getLast?_eq_none_iff, List.filterMap_eq_nil_iff]

theorem settled_concat :
    settled effect value (answers ++ [a]) = (effect a).getD (settled effect value answers) := by
  unfold settled lastSet
  rw [List.filterMap_append, List.filterMap_cons, List.filterMap_nil]
  cases effect a with
  | none => rw [List.append_nil, Option.getD_none]
  | some set => rw [List.getLast?_concat, Option.getD_some, Option.getD_some]

theorem settled_of_lastSet_none (h : lastSet effect answers = none) :
    settled effect value answers = value := by
  unfold settled
  rw [h, Option.getD_none]

theorem settled_of_lastSet {set : β} (h : lastSet effect answers = some set) :
    settled effect value answers = set := by
  unfold settled
  rw [h, Option.getD_some]

theorem settled_eraseIdx {i : ℕ} (ha : answers[i]? = some a)
    (horder : ∀ set ∈ lastSet effect (answers.eraseIdx i), lastSet effect answers = some set) :
    settled effect ((effect a).getD value) (answers.eraseIdx i) =
      settled effect value answers := by
  cases hrest : lastSet effect (answers.eraseIdx i) with
  | some set => rw [settled_of_lastSet hrest, settled_of_lastSet (horder set hrest)]
  | none =>
      rw [settled_of_lastSet_none hrest]
      obtain ⟨hi, rfl⟩ := List.getElem?_eq_some_iff.mp ha
      have hnil : (answers.eraseIdx i).filterMap effect = [] := List.getLast?_eq_none_iff.mp hrest
      rw [List.eraseIdx_eq_take_drop_succ, List.filterMap_append, List.append_eq_nil_iff] at hnil
      obtain ⟨hbefore, hafter⟩ := hnil
      have hsplit : answers.filterMap effect = (effect answers[i]).toList := by
        conv_lhs => rw [← List.take_append_drop i answers, List.drop_eq_getElem_cons hi]
        rw [List.filterMap_append, hbefore, List.nil_append, List.filterMap_cons, hafter]
        cases effect answers[i] <;> rfl
      unfold settled lastSet
      rw [hsplit]
      cases effect answers[i] <;> rfl

theorem settled_set {i : ℕ} {b : α} (ha : answers[i]? = some a) (hnone : effect a = none) :
    settled effect value (answers.set i b) =
      if lastSet effect (answers.drop (i + 1)) = none then
        (effect b).getD (settled effect value answers)
      else settled effect value answers := by
  obtain ⟨hi, rfl⟩ := List.getElem?_eq_some_iff.mp ha
  have hbefore : lastSet effect answers =
      (lastSet effect (answers.drop (i + 1))).or (lastSet effect (answers.take i)) := by
    unfold lastSet
    conv_lhs => rw [← List.take_append_drop i answers, List.drop_eq_getElem_cons hi]
    rw [List.filterMap_append, List.filterMap_cons, hnone, List.getLast?_append]
  have hafter : lastSet effect (answers.set i b) =
      (lastSet effect (answers.drop (i + 1))).or
        ((effect b).or (lastSet effect (answers.take i))) := by
    unfold lastSet
    rw [List.set_eq_take_append_cons_drop, if_pos hi, List.filterMap_append,
      List.filterMap_cons]
    cases effect b with
    | none => rw [Option.none_or, List.getLast?_append]
    | some set =>
        rw [List.getLast?_append, List.getLast?_cons]
        cases ((answers.drop (i + 1)).filterMap effect).getLast? <;> rfl
  unfold settled
  rw [hafter, hbefore]
  cases lastSet effect (answers.drop (i + 1)) with
  | some set => rfl
  | none =>
      rw [if_pos rfl, Option.none_or, Option.none_or]
      cases effect b <;> rfl

theorem settled_set_of_eq {i : ℕ} {b : α} (ha : answers[i]? = some a)
    (heffect : effect b = effect a) :
    settled effect value (answers.set i b) = settled effect value answers := by
  obtain ⟨hi, rfl⟩ := List.getElem?_eq_some_iff.mp ha
  have hsame : (answers.set i b).filterMap effect = answers.filterMap effect := by
    conv_rhs => rw [← List.take_append_drop i answers, List.drop_eq_getElem_cons hi]
    rw [List.set_eq_take_append_cons_drop, if_pos hi, List.filterMap_append,
      List.filterMap_append, List.filterMap_cons, List.filterMap_cons, heffect]
  unfold settled lastSet
  rw [hsame]

theorem mem_eraseIdx_of_ne {i : ℕ} {b : α} (ha : answers[i]? = some a) (hb : b ∈ answers)
    (hne : b ≠ a) : b ∈ answers.eraseIdx i := by
  obtain ⟨j, hj⟩ := List.mem_iff_getElem?.mp hb
  refine List.mem_eraseIdx_iff_getElem?.mpr ⟨j, fun heq => hne ?_, hj⟩
  subst heq
  exact Option.some.inj (hj.symm.trans ha)

end FancyMumble.Lib.Settling
