import Mathlib.Data.List.Nodup
import Mathlib.Data.List.Perm.Basic

/-!
# Logs of bounded length

Dated entries with distinct keys, of which a log keeps at most a given number. A new entry
is appended, and then entries are dropped at the front; whether these are the oldest ones
depends on the dates.
-/

namespace FancyMumble.Lib.BoundedLog

variable {α κ : Type*} {key : α → κ} {date : α → ℕ} {bound : ℕ} {entries entries' : List α}
  {a : α}

def push (bound : ℕ) (entries : List α) (a : α) : List α :=
  (entries ++ [a]).drop (entries.length + 1 - bound)

def kept (bound : ℕ) (entries : List α) : List α := entries.drop (entries.length + 1 - bound)

structure IsLog (key : α → κ) (bound : ℕ) (entries : List α) : Prop where
  nodup : (entries.map key).Nodup
  length_le : entries.length ≤ bound

def Ages (date : α → ℕ) (bound : ℕ) (entries entries' : List α) : Prop :=
  ∀ a ∈ entries, a ∉ entries' → entries'.length = bound ∧ ∀ b ∈ entries', date a ≤ date b

/-- If the log is full, its first entry is not newer than the others and the new one. -/
def PushesOutOldest (date : α → ℕ) (bound : ℕ) (entries : List α) (a : α) : Prop :=
  entries.length = bound → ∀ first ∈ entries.head?, ∀ b ∈ entries.tail ++ [a],
    date first ≤ date b

theorem push_eq (hbound : 0 < bound) (entries : List α) (a : α) :
    push bound entries a = kept bound entries ++ [a] := by
  unfold push kept
  exact List.drop_append_of_le_length (by omega)

theorem kept_of_lt (h : entries.length < bound) : kept bound entries = entries := by
  rw [kept, Nat.sub_eq_zero_of_le h]
  rfl

theorem kept_of_eq (h : entries.length = bound) : kept bound entries = entries.tail := by
  rw [kept, h, Nat.add_sub_cancel_left, List.drop_one]

theorem kept_sublist (bound : ℕ) (entries : List α) : (kept bound entries).Sublist entries :=
  List.drop_sublist _ _

theorem length_push_le (bound : ℕ) (entries : List α) (a : α) :
    (push bound entries a).length ≤ bound := by
  rw [push, List.length_drop, List.length_append, List.length_singleton]
  omega

theorem push_map {β : Type*} (f : β → α) (entries : List β) (b : β) :
    push bound (entries.map f) (f b) = (push bound entries b).map f := by
  rw [push, push, List.map_drop, List.map_append, List.map_singleton, List.length_map]

theorem kept_map {β : Type*} (f : β → α) (entries : List β) :
    kept bound (entries.map f) = (kept bound entries).map f := by
  rw [kept, kept, List.map_drop, List.length_map]

theorem pushesOutOldest_map {β : Type*} (f : β → α) (entries : List β) (b : β) :
    PushesOutOldest date bound (entries.map f) (f b) ↔
      PushesOutOldest (fun b => date (f b)) bound entries b := by
  cases entries with
  | nil => exact iff_of_true (fun _ => nofun) (fun _ => nofun)
  | cons first rest =>
      unfold PushesOutOldest
      rw [List.length_map, List.map_cons, List.head?_cons, List.head?_cons, List.tail_cons,
        List.tail_cons, ← List.map_singleton, ← List.map_append]
      simp only [Option.mem_some_iff, List.forall_mem_map, forall_eq']

/-! ## Logs -/

theorem IsLog.perm (h : IsLog key bound entries) (hperm : entries.Perm entries') :
    IsLog key bound entries' where
  nodup := (hperm.map key).nodup_iff.mp h.nodup
  length_le := hperm.length_eq ▸ h.length_le

theorem IsLog.sublist (h : IsLog key bound entries) (hsub : entries'.Sublist entries) :
    IsLog key bound entries' where
  nodup := h.nodup.sublist (hsub.map key)
  length_le := Nat.le_trans hsub.length_le h.length_le

theorem IsLog.of_map_key (h : IsLog key bound entries)
    (hkeys : entries'.map key = entries.map key) : IsLog key bound entries' where
  nodup := hkeys ▸ h.nodup
  length_le := by
    have hlength := congrArg List.length hkeys
    rw [List.length_map, List.length_map] at hlength
    exact hlength ▸ h.length_le

theorem IsLog.append (h : IsLog key bound entries) (hkey : key a ∉ entries.map key)
    (hlength : entries.length < bound) : IsLog key bound (entries ++ [a]) where
  nodup := by
    rw [List.map_append, List.map_singleton]
    exact h.nodup.append (List.nodup_singleton _) (List.disjoint_singleton.mpr hkey)
  length_le := by
    rw [List.length_append, List.length_singleton]
    exact hlength

theorem IsLog.push (h : IsLog key bound entries) (hbound : 0 < bound)
    (hkey : key a ∉ (kept bound entries).map key) : IsLog key bound (push bound entries a) where
  nodup := by
    rw [push_eq hbound, List.map_append, List.map_singleton]
    have hkept := h.nodup.sublist ((kept_sublist bound entries).map key)
    exact hkept.append (List.nodup_singleton _) (List.disjoint_singleton.mpr hkey)
  length_le := length_push_le bound entries a

theorem IsLog.append_left {new : List α} (h : IsLog key bound entries)
    (hnew : (new.map key).Nodup) (hkeys : ∀ a ∈ new, key a ∉ entries.map key)
    (hlength : entries.length + new.length ≤ bound) : IsLog key bound (new ++ entries) where
  nodup := by
    rw [List.map_append]
    refine hnew.append h.nodup fun k hk hk' => ?_
    obtain ⟨a, ha, rfl⟩ := List.mem_map.mp hk
    exact hkeys a ha hk'
  length_le := by
    rw [List.length_append, Nat.add_comm]
    exact hlength

/-! ## Ages -/

theorem Ages.of_subset (h : ∀ a ∈ entries, a ∈ entries') : Ages date bound entries entries' :=
  fun a ha hnot => absurd (h a ha) hnot

theorem Ages.refl (date : α → ℕ) (bound : ℕ) (entries : List α) :
    Ages date bound entries entries := Ages.of_subset fun _ ha => ha

theorem Ages.perm {entries'' : List α} (h : Ages date bound entries entries')
    (hperm : entries'.Perm entries'') : Ages date bound entries entries'' := by
  intro a ha hnot
  obtain ⟨hlength, holder⟩ := h a ha fun hmem => hnot (hperm.mem_iff.mp hmem)
  exact ⟨hperm.length_eq ▸ hlength, fun b hb => holder b (hperm.mem_iff.mpr hb)⟩

theorem Ages.push (h : Ages date bound entries entries') (hbound : 0 < bound)
    (hlength : entries'.length ≤ bound) (holdest : PushesOutOldest date bound entries' a) :
    Ages date bound entries (push bound entries' a) := by
  rw [push_eq hbound]
  rcases Nat.lt_or_eq_of_le hlength with hroom | hfull
  · rw [kept_of_lt hroom]
    intro b hb hnot
    have hgone := (h b hb fun hmem => hnot (List.mem_append_left _ hmem)).1
    exact absurd hgone (Nat.ne_of_lt hroom)
  · rw [kept_of_eq hfull]
    have hfirst := holdest hfull
    obtain ⟨first, rest, rfl⟩ := List.exists_cons_of_length_pos (hfull ▸ hbound)
    intro b hb hnot
    refine ⟨by rw [← hfull]; simp, fun c hc => ?_⟩
    by_cases hbefore : b ∈ first :: rest
    · rcases List.mem_cons.mp hbefore with rfl | hrest
      · exact hfirst b rfl c hc
      · exact absurd (List.mem_append_left _ hrest) hnot
    · have holder := (h b hb hbefore).2 first List.mem_cons_self
      exact Nat.le_trans holder (hfirst first rfl c hc)

/-! ## Insertion -/

section Insert

variable [DecidableEq κ]

def insert (key : α → κ) (bound : ℕ) (entries : List α) (a : α) : List α :=
  if key a ∈ entries.map key then entries else push bound entries a

theorem insert_of_mem (h : key a ∈ entries.map key) : insert key bound entries a = entries :=
  if_pos h

theorem insert_of_notMem (h : key a ∉ entries.map key) :
    insert key bound entries a = push bound entries a := if_neg h

def InsertsOldest (key : α → κ) (date : α → ℕ) (bound : ℕ) : List α → List α → Prop
  | _, [] => True
  | entries, a :: rest =>
      (key a ∉ entries.map key → PushesOutOldest date bound entries a) ∧
        InsertsOldest key date bound (insert key bound entries a) rest

theorem insert_map {β : Type*} (f : β → α) (entries : List β) (b : β) :
    insert key bound (entries.map f) (f b) =
      (insert (fun b => key (f b)) bound entries b).map f := by
  unfold insert
  rw [List.map_map, apply_ite (List.map f), push_map]
  rfl

theorem insertsOldest_map {β : Type*} (f : β → α) (entries new : List β) :
    InsertsOldest key date bound (entries.map f) (new.map f) ↔
      InsertsOldest (fun b => key (f b)) (fun b => date (f b)) bound entries new := by
  induction new generalizing entries with
  | nil => exact Iff.rfl
  | cons a rest ih =>
      have hkeys : (entries.map f).map key = entries.map fun b => key (f b) := List.map_map
      rw [List.map_cons]
      unfold InsertsOldest
      rw [hkeys, pushesOutOldest_map, insert_map, ih]

end Insert

/-! ## Elements of two kinds -/

theorem countP_take_add_countP_drop (p : α → Bool) (n : ℕ) (xs : List α) :
    (xs.take n).countP p + (xs.drop n).countP p = xs.countP p := by
  rw [← List.countP_append, List.take_append_drop]

theorem countP_take_excess_le_iff (p : α → Bool) (bound : ℕ) (xs : List α) :
    (xs.take (xs.length - bound)).countP p ≤ xs.countP p - bound ↔
      (∀ x ∈ xs.take (xs.length - bound), p x = false) ∨
        ∀ x ∈ xs.drop (xs.length - bound), p x = true := by
  have hsplit := countP_take_add_countP_drop p (xs.length - bound) xs
  have hrest : (xs.drop (xs.length - bound)).countP p ≤ (xs.drop (xs.length - bound)).length :=
    List.countP_le_length
  rw [List.length_drop] at hrest
  have hnone : (∀ x ∈ xs.take (xs.length - bound), p x = false) ↔
      (xs.take (xs.length - bound)).countP p = 0 := by
    rw [List.countP_eq_zero]
    simp only [Bool.not_eq_true]
  have hall : (∀ x ∈ xs.drop (xs.length - bound), p x = true) ↔
      (xs.drop (xs.length - bound)).countP p = (xs.drop (xs.length - bound)).length :=
    List.countP_eq_length.symm
  rw [hnone, hall, List.length_drop]
  by_cases hfits : xs.length ≤ bound
  · have hexcess : xs.length - bound = 0 := by omega
    rw [hexcess, List.take_zero, List.countP_nil]
    simp
  · omega

end FancyMumble.Lib.BoundedLog
