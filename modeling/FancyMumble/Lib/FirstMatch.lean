import Mathlib.Data.List.Basic

/-!
# First matches

Elements of a list with optional keys, of which only the first one with a key is found and
changed: what holds of all elements after that.
-/

namespace FancyMumble.Lib.FirstMatch

variable {α κ β : Type} [DecidableEq κ] (key : α → Option κ)

def first (k : κ) : List α → Option α
  | [] => none
  | a :: rest => if key a = some k then some a else first k rest

def others (k : κ) : List α → List α
  | [] => []
  | a :: rest => if key a = some k then rest else a :: others k rest

def modifyFirst (k : κ) (f : α → α) : List α → List α
  | [] => []
  | a :: rest => if key a = some k then f a :: rest else a :: modifyFirst k f rest

variable {key}

theorem key_of_first {k : κ} {a : α} {l : List α} (h : first key k l = some a) :
    key a = some k ∧ a ∈ l := by
  induction l with
  | nil => cases h
  | cons b rest ih =>
      unfold first at h
      split at h
      next hkey =>
        cases h
        exact ⟨hkey, List.mem_cons_self⟩
      next => exact (ih h).imp_right (List.mem_cons_of_mem b)

theorem others_subset (k : κ) (l : List α) : others key k l ⊆ l := by
  induction l with
  | nil => exact List.Subset.refl _
  | cons a rest ih =>
      unfold others
      split
      next => exact List.subset_cons_self a rest
      next => exact List.cons_subset_cons a ih

theorem forall_mem_iff (k : κ) (l : List α) {P : α → Prop} :
    (∀ a ∈ l, P a) ↔ (∀ a ∈ first key k l, P a) ∧ ∀ a ∈ others key k l, P a := by
  induction l with
  | nil => simp [first, others]
  | cons a rest ih =>
      unfold first others
      split
      next => simp
      next =>
        rw [List.forall_mem_cons, List.forall_mem_cons, ih]
        exact and_left_comm

theorem forall_mem_modifyFirst (k : κ) (f : α → α) (l : List α) {P : α → Prop} :
    (∀ a ∈ modifyFirst key k f l, P a) ↔
      (∀ a ∈ first key k l, P (f a)) ∧ ∀ a ∈ others key k l, P a := by
  induction l with
  | nil => simp [modifyFirst, first, others]
  | cons a rest ih =>
      unfold modifyFirst first others
      split
      next => simp
      next =>
        rw [List.forall_mem_cons, List.forall_mem_cons, ih]
        exact and_left_comm

/-! ## Several keys -/

section Keys

variable {k k' : κ} {f : α → α} (hne : k' ≠ k)

include hne

theorem first_others_of_ne (l : List α) : first key k' (others key k l) = first key k' l := by
  induction l with
  | nil => rfl
  | cons a rest ih =>
      unfold others
      split
      next hkey =>
        have hother : key a ≠ some k' := fun heq => hne (Option.some.inj (heq.symm.trans hkey))
        exact (if_neg hother).symm
      next => rw [first, first, ih]

theorem others_comm (l : List α) :
    others key k' (others key k l) = others key k (others key k' l) := by
  induction l with
  | nil => rfl
  | cons a rest ih =>
      by_cases hkey : key a = some k
      · have hother : key a ≠ some k' := fun heq => hne (Option.some.inj (heq.symm.trans hkey))
        simp only [others, if_pos hkey, if_neg hother]
      · by_cases hkey' : key a = some k'
        · simp only [others, if_neg hkey, if_pos hkey']
        · simp only [others, if_neg hkey, if_neg hkey', ih]

theorem first_modifyFirst_of_ne (hf : ∀ a, key (f a) = key a) (l : List α) :
    first key k' (modifyFirst key k f l) = first key k' l := by
  induction l with
  | nil => rfl
  | cons a rest ih =>
      unfold modifyFirst
      split
      next hkey =>
        have hother : key a ≠ some k' := fun heq => hne (Option.some.inj (heq.symm.trans hkey))
        rw [first, first, if_neg hother, if_neg (hf a ▸ hother)]
      next => rw [first, first, ih]

theorem others_modifyFirst_of_ne (hf : ∀ a, key (f a) = key a) (l : List α) :
    others key k' (modifyFirst key k f l) = modifyFirst key k f (others key k' l) := by
  induction l with
  | nil => rfl
  | cons a rest ih =>
      by_cases hkey : key a = some k
      · have hother : key a ≠ some k' := fun heq => hne (Option.some.inj (heq.symm.trans hkey))
        simp only [modifyFirst, others, if_pos hkey, if_neg hother, if_neg (hf a ▸ hother)]
      · by_cases hkey' : key a = some k'
        · simp only [modifyFirst, others, if_neg hkey, if_pos hkey']
        · simp only [modifyFirst, others, if_neg hkey, if_neg hkey', ih]

end Keys

variable (key) in
def modifyAll (set : β → α → α) (changes : List (κ × β)) (l : List α) : List α :=
  changes.foldl (fun l change => modifyFirst key change.1 (set change.2) l) l

variable (key) in
def othersAll (ks : List κ) (l : List α) : List α := ks.foldl (fun l k => others key k l) l

theorem othersAll_subset (ks : List κ) (l : List α) : othersAll key ks l ⊆ l := by
  induction ks generalizing l with
  | nil => exact List.Subset.refl _
  | cons k rest ih => exact List.Subset.trans (ih (others key k l)) (others_subset k l)

theorem othersAll_others_comm {k : κ} {ks : List κ} (h : k ∉ ks) (l : List α) :
    othersAll key ks (others key k l) = others key k (othersAll key ks l) := by
  induction ks generalizing l with
  | nil => rfl
  | cons k' rest ih =>
      obtain ⟨hne, hrest⟩ := List.ne_and_not_mem_of_not_mem_cons h
      calc
        othersAll key rest (others key k' (others key k l))
          = othersAll key rest (others key k (others key k' l)) := by
            rw [others_comm (Ne.symm hne)]
        _ = others key k (othersAll key rest (others key k' l)) := ih hrest _

theorem first_othersAll {k : κ} {ks : List κ} (h : k ∉ ks) (l : List α) :
    first key k (othersAll key ks l) = first key k l := by
  induction ks generalizing l with
  | nil => rfl
  | cons k' rest ih =>
      obtain ⟨hne, hrest⟩ := List.ne_and_not_mem_of_not_mem_cons h
      exact (ih hrest _).trans (first_others_of_ne hne l)

theorem othersAll_modifyFirst {k : κ} {ks : List κ} (h : k ∉ ks) {f : α → α}
    (hf : ∀ a, key (f a) = key a) (l : List α) :
    othersAll key ks (modifyFirst key k f l) = modifyFirst key k f (othersAll key ks l) := by
  induction ks generalizing l with
  | nil => rfl
  | cons k' rest ih =>
      obtain ⟨hne, hrest⟩ := List.ne_and_not_mem_of_not_mem_cons h
      calc
        othersAll key rest (others key k' (modifyFirst key k f l))
          = othersAll key rest (modifyFirst key k f (others key k' l)) := by
            rw [others_modifyFirst_of_ne (Ne.symm hne) hf]
        _ = modifyFirst key k f (othersAll key rest (others key k' l)) := ih hrest _

theorem forall_mem_iff_all {ks : List κ} (hnodup : ks.Nodup) (l : List α) {P : α → Prop} :
    (∀ a ∈ l, P a) ↔
      (∀ k ∈ ks, ∀ a ∈ first key k l, P a) ∧ ∀ a ∈ othersAll key ks l, P a := by
  induction ks generalizing l with
  | nil => exact (and_iff_right fun _ hk => absurd hk List.not_mem_nil).symm
  | cons k rest ih =>
      obtain ⟨hk, hrest⟩ := List.nodup_cons.mp hnodup
      have hfirst (k' : κ) (hk' : k' ∈ rest) :
          first key k' (others key k l) = first key k' l :=
        first_others_of_ne (ne_of_mem_of_not_mem hk' hk) l
      rw [forall_mem_iff k l, ih hrest, List.forall_mem_cons, and_assoc]
      refine and_congr_right fun _ => and_congr (forall₂_congr fun k' hk' => ?_) Iff.rfl
      rw [hfirst k' hk']

theorem forall_mem_modifyAll {set : β → α → α} (hset : ∀ b a, key (set b a) = key a)
    {changes : List (κ × β)} (hnodup : (changes.map Prod.fst).Nodup) (l : List α)
    {P : α → Prop} :
    (∀ a ∈ modifyAll key set changes l, P a) ↔
      (∀ change ∈ changes, ∀ a ∈ first key change.1 l, P (set change.2 a)) ∧
        ∀ a ∈ othersAll key (changes.map Prod.fst) l, P a := by
  induction changes generalizing l with
  | nil => exact (and_iff_right fun _ hchange => absurd hchange List.not_mem_nil).symm
  | cons change rest ih =>
      obtain ⟨hk, hrest⟩ := List.nodup_cons.mp hnodup
      have hne (other : κ × β) (hother : other ∈ rest) : other.1 ≠ change.1 :=
        fun heq => hk (List.mem_map.mpr ⟨other, hother, heq⟩)
      change (∀ a ∈ modifyAll key set rest (modifyFirst key change.1 (set change.2) l), P a) ↔ _
      rw [ih hrest, List.forall_mem_cons, List.map_cons,
        othersAll_modifyFirst hk (hset change.2), forall_mem_modifyFirst, first_othersAll hk,
        ← othersAll_others_comm hk]
      change _ ↔ _ ∧ ∀ a ∈ othersAll key (rest.map Prod.fst) (others key change.1 l), P a
      rw [and_assoc, and_left_comm]
      refine and_congr_right fun _ => and_congr (forall₂_congr fun other hother => ?_) Iff.rfl
      rw [first_modifyFirst_of_ne (hne other hother) (hset change.2)]

end FancyMumble.Lib.FirstMatch
