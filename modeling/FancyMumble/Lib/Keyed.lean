import Mathlib.Data.List.AList

/-!
# Keyed lists

A map that remembers the order in which its keys were inserted, as a list of values that
carry their keys: looking up, setting and deleting an entry.
-/

namespace FancyMumble.Lib.Keyed

variable {α κ : Type*} [DecidableEq κ] (key : α → κ)

def find (k : κ) (xs : List α) : Option α := xs.find? fun x => key x = k

def put (x : α) (xs : List α) : List α :=
  if ∃ y ∈ xs, key y = key x then xs.map fun y => if key y = key x then x else y
  else xs ++ [x]

def delete (k : κ) (xs : List α) : List α := xs.filter fun x => key x ≠ k

variable {key} {k : κ} {x y : α} {xs : List α}

theorem key_of_find (h : find key k xs = some x) : key x = k := by
  have hpred := List.find?_some (p := fun x => decide (key x = k)) h
  exact of_decide_eq_true hpred

theorem mem_of_find (h : find key k xs = some x) : x ∈ xs := List.mem_of_find?_eq_some h

theorem find_eq_none_iff : find key k xs = none ↔ ∀ x ∈ xs, key x ≠ k := by
  simp [find, List.find?_eq_none]

theorem mem_put : y ∈ put key x xs ↔ y = x ∨ y ∈ xs ∧ key y ≠ key x := by
  unfold put
  split
  next hthere =>
    rw [List.mem_map]
    constructor
    · rintro ⟨z, hz, rfl⟩
      split
      next => exact .inl rfl
      next hne => exact .inr ⟨hz, hne⟩
    · rintro (rfl | ⟨hy, hne⟩)
      · obtain ⟨z, hz, hkey⟩ := hthere
        exact ⟨z, hz, if_pos hkey⟩
      · exact ⟨y, hy, if_neg hne⟩
  next hnot =>
    rw [List.mem_append, List.mem_singleton, or_comm]
    refine or_congr_right (iff_self_and.mpr fun hy hkey => hnot ⟨y, hy, hkey⟩)

theorem mem_delete : y ∈ delete key k xs ↔ y ∈ xs ∧ key y ≠ k := by
  rw [delete, List.mem_filter, decide_eq_true_eq]

theorem find_map_put (hthere : ∃ y ∈ xs, key y = key x) :
    find key (key x) (xs.map fun y => if key y = key x then x else y) = some x := by
  induction xs with
  | nil =>
      obtain ⟨y, hy, -⟩ := hthere
      cases hy
  | cons y xs ih =>
      rw [List.map_cons]
      by_cases hy : key y = key x
      · rw [if_pos hy]
        exact List.find?_cons_of_pos (decide_eq_true rfl)
      · rw [if_neg hy]
        refine (List.find?_cons_of_neg (by simpa using hy)).trans (ih ?_)
        obtain ⟨z, hz, hkey⟩ := hthere
        rcases List.mem_cons.mp hz with rfl | hz
        · exact absurd hkey hy
        · exact ⟨z, hz, hkey⟩

theorem find_put : find key k (put key x xs) = if k = key x then some x else find key k xs := by
  unfold put
  split
  next hthere =>
    split
    next hk => rw [hk, find_map_put hthere]
    next hk =>
      clear hthere
      induction xs with
      | nil => rfl
      | cons y xs ih =>
          simp only [find, List.map_cons, List.find?_cons] at ih ⊢
          by_cases hy : key y = key x
          · have hx : (key x = k) = False := eq_false fun h => hk h.symm
            simp only [hy, hx, if_true, decide_false]
            exact ih
          · simp only [hy, if_false]
            split
            · rfl
            · exact ih
  next hnot =>
    unfold find
    rw [List.find?_append]
    split
    next hk =>
      have hnone : xs.find? (fun x => key x = k) = none :=
        find_eq_none_iff.mpr fun y hy hkey => hnot ⟨y, hy, hkey.trans hk⟩
      rw [hnone, Option.none_or]
      exact List.find?_cons_of_pos (decide_eq_true hk.symm)
    next hk =>
      have hx : (key x = k) = False := eq_false fun h => hk h.symm
      simp [hx]

theorem find_delete {k' : κ} :
    find key k' (delete key k xs) = if k' = k then none else find key k' xs := by
  split
  next hk =>
    subst hk
    exact find_eq_none_iff.mpr fun y hy => (mem_delete.mp hy).2
  next hk =>
    unfold find delete
    rw [List.find?_filter]
    congr 1
    funext y
    by_cases hy : key y = k'
    · simp [hy, hk]
    · simp [hy]

/-! ## Distinct keys -/

theorem find_filter (p : κ → Bool) :
    find key k (xs.filter fun x => p (key x)) = if p k then find key k xs else none := by
  induction xs with
  | nil => simp [find]
  | cons x xs ih =>
      by_cases hkey : key x = k
      · subst hkey
        cases hp : p (key x) with
        | true => simp [find, hp]
        | false =>
            rw [List.filter_cons_of_neg (by rw [hp]; exact Bool.false_ne_true), ih, hp,
              if_neg Bool.false_ne_true, if_neg Bool.false_ne_true]
      · have hskip : find key k (x :: xs) = find key k xs := by
          simp [find, hkey]
        rw [hskip, List.filter_cons]
        split
        · rw [← ih]
          simp [find, hkey]
        · exact ih

theorem nodup_put (h : (xs.map key).Nodup) : ((put key x xs).map key).Nodup := by
  unfold put
  split
  next =>
    have hkeys : (xs.map fun y => if key y = key x then x else y).map key = xs.map key := by
      rw [List.map_map]
      refine List.map_congr_left fun y _ => ?_
      simp only [Function.comp_apply]
      split
      next hy => exact hy.symm
      next => rfl
    rwa [hkeys]
  next hnot =>
    rw [List.map_append, List.nodup_append]
    refine ⟨h, List.nodup_singleton _, fun k hk k' hk' heq => ?_⟩
    obtain ⟨y, hy, rfl⟩ := List.mem_map.mp hk
    exact hnot ⟨y, hy, heq.trans (List.mem_singleton.mp hk')⟩

theorem nodup_delete (h : (xs.map key).Nodup) : ((delete key k xs).map key).Nodup :=
  h.sublist (List.filter_sublist.map key)

theorem find_eq_some_iff (h : (xs.map key).Nodup) :
    find key k xs = some x ↔ x ∈ xs ∧ key x = k := by
  constructor
  · intro hfind
    exact ⟨mem_of_find hfind, key_of_find hfind⟩
  · rintro ⟨hx, rfl⟩
    cases hfind : find key (key x) xs with
    | none => exact absurd rfl (find_eq_none_iff.mp hfind x hx)
    | some y =>
        rw [List.inj_on_of_nodup_map h (mem_of_find hfind) hx (key_of_find hfind)]

theorem put_eq_map (h : (xs.map key).Nodup) {f : α → α} (hf : ∀ y, key (f y) = key y)
    (hx : find key k xs = some x) :
    put key (f x) xs = xs.map fun y => if key y = k then f y else y := by
  have hkey := key_of_find hx
  unfold put
  rw [if_pos ⟨x, mem_of_find hx, (hf x).symm⟩]
  refine List.map_congr_left fun y hy => ?_
  rw [hf, hkey]
  split
  next hyk =>
    rw [List.inj_on_of_nodup_map h hy (mem_of_find hx) (hyk.trans hkey.symm)]
  next => rfl

/-! ## Association lists -/

theorem dlookup_kreplace (a a' : κ) (b : α) (l : List (Sigma fun _ : κ => α)) :
    List.dlookup a' (List.kreplace a b l) =
      if a' = a then (List.dlookup a' l).map fun _ => b else List.dlookup a' l := by
  induction l with
  | nil => simp [List.kreplace]
  | cons entry l ih =>
      obtain ⟨k', v⟩ := entry
      by_cases hk : a = k'
      · subst hk
        have hhead : List.kreplace a b (⟨a, v⟩ :: l) = ⟨a, b⟩ :: l :=
          List.lookmap_cons_some _ _ (if_pos rfl)
        rw [hhead]
        by_cases ha : a' = a
        · subst ha
          simp
        · rw [if_neg ha, List.dlookup_cons_ne _ _ ha, List.dlookup_cons_ne _ _ ha]
      · have hhead : List.kreplace a b (⟨k', v⟩ :: l) = ⟨k', v⟩ :: List.kreplace a b l :=
          List.lookmap_cons_none _ _ (if_neg hk)
        rw [hhead]
        by_cases hk' : a' = k'
        · subst hk'
          rw [if_neg (Ne.symm hk), List.dlookup_cons_eq, List.dlookup_cons_eq]
        · rw [List.dlookup_cons_ne _ _ hk', List.dlookup_cons_ne _ _ hk', ih]

theorem lookup_replace (m : AList fun _ : κ => α) (a a' : κ) (b : α) :
    (m.replace a b).lookup a' =
      if a' = a then (m.lookup a').map fun _ => b else m.lookup a' :=
  dlookup_kreplace a a' b m.entries

end FancyMumble.Lib.Keyed
