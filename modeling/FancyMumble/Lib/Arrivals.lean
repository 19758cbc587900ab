import Mathlib.Data.List.Induction
import Mathlib.Data.List.InsertIdx
import Mathlib.Data.List.Nodup
import Mathlib.Data.List.TakeWhile
import Mathlib.Order.Lattice

/-!
# Arrivals in the order of their stamps

Values arrive one after the other. The first one of each key is kept, and the kept values
are held in the order of their stamps, those of one stamp in the order in which they came.
A binary search finds the place of a new value.
-/

namespace FancyMumble.Lib.Arrivals

variable {α κ τ : Type*}

/-! ## Binary search -/

/-- The loop of a binary search for the first value of which the predicate does not hold. -/
def bisect (pred : α → Bool) (values : List α) (base size : ℕ) : ℕ :=
  if 1 < size then
    let half := size / 2
    let mid := base + half
    bisect pred values (if values[mid]?.any pred then mid else base) (size - half)
  else if values[base]?.any pred then base + 1
  else base
termination_by size

def partitionPoint (pred : α → Bool) (values : List α) : ℕ :=
  if values.isEmpty then 0 else bisect pred values 0 values.length

def PartitionedAt (pred : α → Bool) (values : List α) (k : ℕ) : Prop :=
  k ≤ values.length ∧ ∀ i value, values[i]? = some value → (pred value = true ↔ i < k)

theorem PartitionedAt.any_iff {pred : α → Bool} {values : List α} {k i : ℕ}
    (h : PartitionedAt pred values k) (hi : i < values.length) :
    values[i]?.any pred = true ↔ i < k := by
  rw [List.getElem?_eq_getElem hi]
  exact h.2 i _ (List.getElem?_eq_getElem hi)

theorem bisect_eq {pred : α → Bool} {values : List α} {k : ℕ}
    (h : PartitionedAt pred values k) (base size : ℕ) (hsize : 1 ≤ size)
    (hlength : base + size ≤ values.length) (hbase : base ≤ k) (hk : k ≤ base + size) :
    bisect pred values base size = k := by
  induction size using Nat.strongRecOn generalizing base with
  | ind size ih =>
      have hany {i : ℕ} (hi : i < values.length) := h.any_iff hi
      unfold bisect
      dsimp only
      split
      next hlt =>
        refine ih (size - size / 2) (by omega) _ (by omega) ?_ ?_ ?_
        · split <;> omega
        · split
          next hpred => exact Nat.le_of_lt ((hany (by omega)).mp hpred)
          next => exact hbase
        · split
          next => omega
          next hpred =>
            have hafter : ¬base + size / 2 < k := fun hlt => hpred ((hany (by omega)).mpr hlt)
            omega
      next hlast =>
        split
        next hpred =>
          have hbefore := (hany (by omega)).mp hpred
          omega
        next hpred =>
          have hafter : ¬base < k := fun hlt => hpred ((hany (by omega)).mpr hlt)
          omega

theorem partitionPoint_eq {pred : α → Bool} {values : List α} {k : ℕ}
    (h : PartitionedAt pred values k) : partitionPoint pred values = k := by
  unfold partitionPoint
  cases values with
  | nil =>
      have hk : k ≤ 0 := h.1
      exact (Nat.le_zero.mp hk).symm
  | cons value values =>
      exact bisect_eq h 0 _ (Nat.succ_pos _) (by rw [Nat.zero_add]) (Nat.zero_le k)
        (by rw [Nat.zero_add]; exact h.1)

/-! ## First arrivals -/

section Firsts

variable [DecidableEq κ] (key : α → κ)

def keepFirst (kept : List α) (new : α) : List α :=
  if key new ∈ kept.map key then kept else kept ++ [new]

def firsts (arrived : List α) : List α := arrived.foldl (keepFirst key) []

variable {key}

theorem firsts_append_singleton (arrived : List α) (new : α) :
    firsts key (arrived ++ [new]) = keepFirst key (firsts key arrived) new := by
  unfold firsts
  rw [List.foldl_append]
  rfl

theorem keepFirst_of_mem {kept : List α} {new : α} (h : key new ∈ kept.map key) :
    keepFirst key kept new = kept := if_pos h

theorem keepFirst_of_notMem {kept : List α} {new : α} (h : key new ∉ kept.map key) :
    keepFirst key kept new = kept ++ [new] := if_neg h

theorem nodup_firsts (arrived : List α) : ((firsts key arrived).map key).Nodup := by
  induction arrived using List.reverseRecOn with
  | nil => exact List.nodup_nil
  | append_singleton arrived new ih =>
      rw [firsts_append_singleton]
      by_cases hnew : key new ∈ (firsts key arrived).map key
      · rw [keepFirst_of_mem hnew]
        exact ih
      · rw [keepFirst_of_notMem hnew, List.map_append, List.map_singleton]
        exact List.nodup_append.mpr ⟨ih, List.nodup_singleton _, fun _ hkept _ hkey heq =>
          hnew (List.mem_singleton.mp hkey ▸ heq ▸ hkept)⟩

theorem map_key_firsts (arrived : List α) (k : κ) :
    k ∈ (firsts key arrived).map key ↔ k ∈ arrived.map key := by
  induction arrived using List.reverseRecOn generalizing k with
  | nil => exact Iff.rfl
  | append_singleton arrived new ih =>
      rw [firsts_append_singleton, List.map_append, List.map_singleton, List.mem_append,
        List.mem_singleton]
      by_cases hnew : key new ∈ (firsts key arrived).map key
      · rw [keepFirst_of_mem hnew, ih]
        exact (or_iff_left_of_imp fun hk => hk ▸ (ih _).mp hnew).symm
      · rw [keepFirst_of_notMem hnew, List.map_append, List.map_singleton, List.mem_append,
          List.mem_singleton, ih]

/-- What is kept of a key came before everything else with this key. -/
theorem mem_firsts_iff {arrived : List α} {value : α} :
    value ∈ firsts key arrived ↔
      ∃ before after, arrived = before ++ value :: after ∧ key value ∉ before.map key := by
  induction arrived using List.reverseRecOn with
  | nil =>
      refine iff_of_false List.not_mem_nil ?_
      rintro ⟨before, after, heq, -⟩
      exact absurd heq (by simp)
  | append_singleton arrived new ih =>
      rw [firsts_append_singleton]
      have hold : value ∈ firsts key arrived → ∃ before after,
          arrived ++ [new] = before ++ value :: after ∧ key value ∉ before.map key := by
        intro hvalue
        obtain ⟨before, after, rfl, hbefore⟩ := ih.mp hvalue
        exact ⟨before, after ++ [new], by rw [List.append_assoc, List.cons_append], hbefore⟩
      constructor
      · intro hvalue
        by_cases hnew : key new ∈ (firsts key arrived).map key
        · exact hold (keepFirst_of_mem hnew ▸ hvalue)
        · rw [keepFirst_of_notMem hnew] at hvalue
          rcases List.mem_append.mp hvalue with hvalue | hvalue
          · exact hold hvalue
          · cases List.mem_singleton.mp hvalue
            exact ⟨arrived, [], rfl, fun hkey => hnew ((map_key_firsts _ _).mpr hkey)⟩
      · rintro ⟨before, after, heq, hbefore⟩
        cases after using List.reverseRecOn with
        | nil =>
            obtain ⟨rfl, hlast⟩ := List.append_inj' heq rfl
            cases hlast
            rw [keepFirst_of_notMem fun hkey => hbefore ((map_key_firsts _ _).mp hkey)]
            exact List.mem_append_right _ (List.mem_singleton_self _)
        | append_singleton after last =>
            rw [← List.cons_append, ← List.append_assoc] at heq
            have hkept : value ∈ firsts key arrived :=
              ih.mpr ⟨before, after, (List.append_inj' heq rfl).1, hbefore⟩
            by_cases hnew : key new ∈ (firsts key arrived).map key
            · rwa [keepFirst_of_mem hnew]
            · rw [keepFirst_of_notMem hnew]
              exact List.mem_append_left _ hkept

end Firsts

/-! ## Order of the stamps -/

section Arranged

variable [LinearOrder τ] {stamp : α → τ}

/-- The values that came in the order of their stamps, those of one stamp in the order in
which they came. -/
structure Arranged (stamp : α → τ) (came values : List α) : Prop where
  sorted : values.Pairwise fun a b => stamp a ≤ stamp b
  ties : ∀ t, values.filter (stamp · = t) = came.filter (stamp · = t)

theorem arranged_nil : Arranged stamp [] [] := ⟨.nil, fun _ => rfl⟩

theorem Arranged.mem_iff {came values : List α} (h : Arranged stamp came values) {value : α} :
    value ∈ values ↔ value ∈ came := by
  have hties := congrArg (value ∈ ·) (h.ties (stamp value))
  simpa using hties

theorem Arranged.perm [DecidableEq α] {came values : List α} (h : Arranged stamp came values) :
    values.Perm came := by
  refine List.perm_iff_count.mpr fun value => ?_
  have hself (list : List α) :
      (list.filter (stamp · = stamp value)).count value = list.count value :=
    List.count_filter (decide_eq_true rfl)
  calc values.count value
      = (values.filter (stamp · = stamp value)).count value := (hself values).symm
    _ = (came.filter (stamp · = stamp value)).count value := by rw [h.ties]
    _ = came.count value := hself came

theorem partitionedAt_length_takeWhile {values : List α}
    (h : values.Pairwise fun a b => stamp a ≤ stamp b) (t : τ) :
    PartitionedAt (fun value => decide (stamp value ≤ t)) values
      (values.takeWhile (stamp · ≤ t)).length := by
  refine ⟨(List.takeWhile_prefix _).length_le, ?_⟩
  induction h with
  | nil => exact fun i value hvalue => absurd hvalue (by simp)
  | @cons first rest hfirst hrest ih =>
      intro i value hvalue
      by_cases hle : stamp first ≤ t
      · have htake : (first :: rest).takeWhile (stamp · ≤ t) =
            first :: rest.takeWhile (stamp · ≤ t) :=
          List.takeWhile_cons_of_pos (decide_eq_true hle)
        rw [htake, List.length_cons]
        cases i with
        | zero =>
            cases hvalue
            exact iff_of_true (decide_eq_true hle) (Nat.succ_pos _)
        | succ i => exact (ih i value hvalue).trans Nat.succ_lt_succ_iff.symm
      · have htake : (first :: rest).takeWhile (stamp · ≤ t) = [] :=
          List.takeWhile_cons_of_neg (by simpa using hle)
        rw [htake, List.length_nil]
        refine iff_of_false (fun hpred => hle ?_) (Nat.not_lt_zero i)
        have hvalue_le := of_decide_eq_true hpred
        rcases List.mem_cons.mp (List.mem_of_getElem? hvalue) with rfl | hmem
        · exact hvalue_le
        · exact (hfirst value hmem).trans hvalue_le

theorem insertIdx_append_length (before after : List α) (new : α) :
    (before ++ after).insertIdx before.length new = before ++ new :: after := by
  induction before with
  | nil => exact List.insertIdx_zero
  | cons first before ih =>
      rw [List.cons_append, List.length_cons, List.insertIdx_succ_cons, ih, List.cons_append]

theorem insertIdx_partitionPoint {values : List α}
    (h : values.Pairwise fun a b => stamp a ≤ stamp b) (new : α) :
    values.insertIdx (partitionPoint (stamp · ≤ stamp new) values) new =
      values.takeWhile (stamp · ≤ stamp new) ++
        new :: values.dropWhile (stamp · ≤ stamp new) := by
  rw [partitionPoint_eq (partitionedAt_length_takeWhile h (stamp new))]
  have hinsert := insertIdx_append_length (values.takeWhile (stamp · ≤ stamp new))
    (values.dropWhile (stamp · ≤ stamp new)) new
  rwa [List.takeWhile_append_dropWhile] at hinsert

theorem lt_of_mem_dropWhile {values : List α}
    (h : values.Pairwise fun a b => stamp a ≤ stamp b) {t : τ} {value : α}
    (hvalue : value ∈ values.dropWhile (stamp · ≤ t)) : t < stamp value := by
  induction h with
  | nil => exact absurd hvalue List.not_mem_nil
  | @cons first rest hfirst hrest ih =>
      rw [List.dropWhile_cons] at hvalue
      split at hvalue
      next => exact ih hvalue
      next hlater =>
        have hlt : t < stamp first := by simpa using hlater
        rcases List.mem_cons.mp hvalue with rfl | hmem
        · exact hlt
        · exact hlt.trans_le (hfirst value hmem)

theorem Arranged.insert {came values : List α} (h : Arranged stamp came values) (new : α) :
    Arranged stamp (came ++ [new])
      (values.insertIdx (partitionPoint (stamp · ≤ stamp new) values) new) := by
  rw [insertIdx_partitionPoint h.sorted]
  have hsplit := List.takeWhile_append_dropWhile (p := (stamp · ≤ stamp new)) (l := values)
  have hbefore : ∀ value ∈ values.takeWhile (stamp · ≤ stamp new), stamp value ≤ stamp new :=
    fun value hvalue => by simpa using List.mem_takeWhile_imp hvalue
  have hafter : ∀ value ∈ values.dropWhile (stamp · ≤ stamp new), stamp new < stamp value :=
    fun value hvalue => lt_of_mem_dropWhile h.sorted hvalue
  constructor
  · have hsorted := h.sorted
    rw [← hsplit, List.pairwise_append] at hsorted
    obtain ⟨hsorted_before, hsorted_after, hacross⟩ := hsorted
    refine List.pairwise_append.mpr ⟨hsorted_before, ?_, fun a ha b hb => ?_⟩
    · exact List.pairwise_cons.mpr ⟨fun b hb => (hafter b hb).le, hsorted_after⟩
    · rcases List.mem_cons.mp hb with rfl | hb
      · exact hbefore a ha
      · exact hacross a ha b hb
  · intro t
    rw [List.filter_append, List.filter_append came, ← h.ties t]
    conv_rhs => rw [← hsplit, List.filter_append]
    rw [List.append_assoc]
    congr 1
    rw [List.filter_cons, List.filter_cons, List.filter_nil]
    by_cases ht : stamp new = t
    · -- nothing behind the new value has its stamp
      have hnone : (values.dropWhile (stamp · ≤ stamp new)).filter (stamp · = t) = [] :=
        List.filter_eq_nil_iff.mpr fun value hvalue heq =>
          absurd (of_decide_eq_true heq) (ht ▸ (hafter value hvalue).ne')
      rw [hnone, List.nil_append]
    · rw [if_neg (by simpa using ht), if_neg (by simpa using ht), List.append_nil]

end Arranged

end FancyMumble.Lib.Arrivals
