import Mathlib.Data.List.Nodup
import Mathlib.Data.List.TakeDrop

/-!
# Walking through a list in pages

A page is taken before or after the first value with the key of a cursor. From page to page a
walk visits a list completely, each value once, if the keys are distinct.
-/

namespace FancyMumble.Lib.Paging

variable {α κ : Type*} [DecidableEq κ] (key : α → κ)

def pageBefore (values : List α) (n : ℕ) (k : κ) : List α :=
  match values.findIdx? fun value => key value = k with
  | some pos => (values.take pos).drop (pos - n)
  | none => []

def pageAfter (values : List α) (n : ℕ) (k : κ) : List α :=
  match values.findIdx? fun value => key value = k with
  | some pos => (values.drop (pos + 1)).take n
  | none => []

/-- From a page back to an empty one, with what is visited in the order of the list. The next
page is the one before the first value of the last page. -/
inductive WalkBack (next : κ → Option (List α)) : List α → List α → Prop
  | done : WalkBack next [] []
  | page {first : α} {rest older visited : List α} (hnext : next (key first) = some older)
      (hwalk : WalkBack next older visited) :
      WalkBack next (first :: rest) (visited ++ first :: rest)

/-- From a page forward to an empty one. The next page is the one after the last value. -/
inductive WalkForward (next : κ → Option (List α)) : List α → List α → Prop
  | done : WalkForward next [] []
  | page {last : α} {init newer visited : List α} (hnext : next (key last) = some newer)
      (hwalk : WalkForward next newer visited) :
      WalkForward next (init ++ [last]) (init ++ last :: visited)

section Walks

variable {key}

theorem findIdx?_key {values : List α} {i : ℕ} {value : α} (hvalue : values[i]? = some value)
    (hfirst : key value ∉ (values.take i).map key) :
    values.findIdx? (fun v => key v = key value) = some i := by
  obtain ⟨hi, rfl⟩ := List.getElem?_eq_some_iff.mp hvalue
  refine List.findIdx?_eq_some_iff_getElem.mpr ⟨hi, decide_eq_true rfl, fun j hj hearlier => ?_⟩
  refine hfirst (List.mem_map.mpr ⟨values[j], ?_, of_decide_eq_true hearlier⟩)
  exact List.mem_take_iff_getElem.mpr ⟨j, by omega, rfl⟩

omit [DecidableEq κ] in
theorem notMem_take_of_nodup {values : List α} (h : (values.map key).Nodup) {i : ℕ} {value : α}
    (hvalue : values[i]? = some value) : key value ∉ (values.take i).map key := by
  obtain ⟨hi, rfl⟩ := List.getElem?_eq_some_iff.mp hvalue
  rw [← List.take_append_drop i values, List.map_append] at h
  have hdisjoint := (List.nodup_append.mp h).2.2
  intro hmem
  refine hdisjoint _ hmem _ (List.mem_map.mpr ⟨values[i], ?_, rfl⟩) rfl
  exact List.mem_drop_iff_getElem.mpr ⟨0, by omega, by simp⟩

theorem pageBefore_eq {values : List α} {i : ℕ} {value : α} (hvalue : values[i]? = some value)
    (hfirst : key value ∉ (values.take i).map key) (n : ℕ) :
    pageBefore key values n (key value) = (values.take i).drop (i - n) := by
  rw [pageBefore, findIdx?_key hvalue hfirst]

theorem pageAfter_eq {values : List α} {i : ℕ} {value : α} (hvalue : values[i]? = some value)
    (hfirst : key value ∉ (values.take i).map key) (n : ℕ) :
    pageAfter key values n (key value) = (values.drop (i + 1)).take n := by
  rw [pageAfter, findIdx?_key hvalue hfirst]

/-- The walk back from a place visits everything before it. -/
theorem walkBack_take {values : List α} (h : (values.map key).Nodup) {n : ℕ} (hn : 1 ≤ n)
    (next : κ → Option (List α))
    (hnext : ∀ value ∈ values, next (key value) = some (pageBefore key values n (key value)))
    (k : ℕ) (hk : k ≤ values.length) :
    WalkBack key next ((values.take k).drop (k - n)) (values.take k) := by
  induction k using Nat.strongRecOn with
  | ind k ih =>
      cases k with
      | zero =>
          rw [List.take_zero, List.drop_nil]
          exact .done
      | succ k =>
          have hlt : k + 1 - n < values.length := by omega
          have hvalue := List.getElem?_eq_getElem hlt
          have hpage : (values.take (k + 1)).drop (k + 1 - n) = values[k + 1 - n] ::
              (values.take (k + 1)).drop (k + 1 - n + 1) := by
            rw [List.drop_eq_getElem_cons (by rw [List.length_take]; omega), List.getElem_take]
          have hsplit : values.take (k + 1 - n) ++ (values.take (k + 1)).drop (k + 1 - n) =
              values.take (k + 1) := by
            have htake : (values.take (k + 1)).take (k + 1 - n) = values.take (k + 1 - n) := by
              rw [List.take_take, Nat.min_eq_left (Nat.sub_le _ _)]
            rw [← htake, List.take_append_drop]
          have hfirst : next (key values[k + 1 - n]) =
              some ((values.take (k + 1 - n)).drop (k + 1 - n - n)) := by
            rw [hnext _ (List.getElem_mem hlt),
              pageBefore_eq hvalue (notMem_take_of_nodup h hvalue)]
          have hwalk : WalkBack key next
              (values[k + 1 - n] :: (values.take (k + 1)).drop (k + 1 - n + 1)) _ :=
            .page hfirst (ih (k + 1 - n) (by omega) (by omega))
          rwa [← hpage, hsplit] at hwalk

/-- The walk forward from a place visits everything from there on. -/
theorem walkForward_drop {values : List α} (h : (values.map key).Nodup) {n : ℕ} (hn : 1 ≤ n)
    (next : κ → Option (List α))
    (hnext : ∀ value ∈ values, next (key value) = some (pageAfter key values n (key value)))
    (rest k : ℕ) (hrest : values.length - k = rest) :
    WalkForward key next ((values.drop k).take n) (values.drop k) := by
  induction rest using Nat.strongRecOn generalizing k with
  | ind rest ih =>
      by_cases hk : values.length ≤ k
      · rw [List.drop_eq_nil_of_le hk, List.take_nil]
        exact .done
      · -- how many values the page has before its last one
        obtain ⟨m, hm⟩ : ∃ m, min n (values.length - k) = m + 1 :=
          ⟨min n (values.length - k) - 1, by omega⟩
        have hlast : k + m < values.length := by omega
        have hvalue := List.getElem?_eq_getElem hlast
        have hdrop : m < (values.drop k).length := by
          rw [List.length_drop]
          omega
        have hpage : (values.drop k).take n = (values.drop k).take m ++ [values[k + m]] := by
          have htake : (values.drop k).take n = (values.drop k).take (m + 1) := by
            refine List.take_eq_take_iff.mpr ?_
            rw [List.length_drop]
            omega
          rw [htake, List.take_succ_eq_append_getElem hdrop, List.getElem_drop]
        have hsplit : (values.drop k).take m ++ values[k + m] :: values.drop (k + m + 1) =
            values.drop k := by
          conv_rhs => rw [← List.take_append_drop m (values.drop k)]
          rw [List.drop_drop, List.drop_eq_getElem_cons hlast]
        have hnewer : next (key values[k + m]) = some ((values.drop (k + m + 1)).take n) := by
          rw [hnext _ (List.getElem_mem hlast),
            pageAfter_eq hvalue (notMem_take_of_nodup h hvalue)]
        have hwalk : WalkForward key next ((values.drop k).take m ++ [values[k + m]]) _ :=
          .page hnewer (ih (values.length - (k + m + 1)) (by omega) (k + m + 1) rfl)
        rwa [← hpage, hsplit] at hwalk

/-- If single steps back visit as many values as there are before a place, the keys of these are
distinct. -/
theorem WalkBack.nodup_take {values : List α} {next : κ → Option (List α)}
    (hnext : ∀ value ∈ values, next (key value) = some (pageBefore key values 1 (key value)))
    {page visited : List α} (hwalk : WalkBack key next page visited) (k : ℕ)
    (hk : k ≤ values.length) (hpage : page = (values.take k).drop (k - 1)) :
    visited.length ≤ k ∧ (visited.length = k → ((values.take k).map key).Nodup) := by
  induction hwalk generalizing k with
  | done =>
      refine ⟨Nat.zero_le k, fun hzero => ?_⟩
      cases hzero
      exact List.nodup_nil
  | @page first rest older visited hfirst hwalk ih =>
      -- the page is the value at the place before
      cases k with
      | zero => cases hpage
      | succ k =>
          have hlt : k < values.length := hk
          have hlength : (values.take (k + 1)).length = k + 1 := List.length_take_of_le hk
          rw [Nat.add_sub_cancel, List.drop_eq_getElem_cons (by omega), List.getElem_take,
            List.drop_eq_nil_of_le (by omega)] at hpage
          obtain ⟨rfl, rfl⟩ := List.cons.inj hpage
          rw [hnext _ (List.getElem_mem hlt), Option.some.injEq] at hfirst
          obtain ⟨p, hp⟩ : ∃ p, values.findIdx? (fun v => key v = key values[k]) = some p := by
            refine Option.isSome_iff_exists.mp (List.findIdx?_isSome.trans ?_)
            exact List.any_eq_true.mpr ⟨_, List.getElem_mem hlt, decide_eq_true rfl⟩
          obtain ⟨hplt, hkey, hbefore⟩ := List.findIdx?_eq_some_iff_getElem.mp hp
          have hle : p ≤ k := by
            by_contra hlater
            exact hbefore k (by omega) (decide_eq_true rfl)
          rw [pageBefore, hp] at hfirst
          obtain ⟨hshort, hnodup⟩ := ih p (by omega) hfirst.symm
          rw [List.length_append, List.length_singleton]
          refine ⟨by omega, fun heq => ?_⟩
          obtain rfl : p = k := by omega
          rw [List.take_succ_eq_append_getElem hlt, List.map_append, List.map_singleton]
          refine List.nodup_append.mpr ⟨hnodup (by omega), List.nodup_singleton _, ?_⟩
          intro a ha b hb heq
          obtain ⟨value, hvalue, rfl⟩ := List.mem_map.mp ha
          obtain ⟨j, hj, rfl⟩ := List.mem_take_iff_getElem.mp hvalue
          exact hbefore j (by omega) (decide_eq_true (heq.trans (List.mem_singleton.mp hb)))

end Walks

end FancyMumble.Lib.Paging
