import Mathlib.Data.List.AList
import Mathlib.Data.List.Induction
import Mathlib.Data.List.Perm.Basic

/-!
# Filling, visiting and grouping the entries of a hash map

A hash map is visited in an order that nothing is known about. `HashOrder` stands for
one such order; `groupBy` sorts entries into groups by a key, one after the other. A map
that is filled entry by entry keeps the last entry of each key.
-/

namespace FancyMumble.Lib.Grouping

variable {α κ β : Type}

structure HashOrder where
  visit : {α : Type} → List α → List α
  perm : ∀ {α : Type} (entries : List α), (visit entries).Perm entries

def HashOrder.listed : HashOrder where
  visit := fun entries => entries
  perm := fun entries => List.Perm.refl entries

theorem HashOrder.mem_visit (order : HashOrder) {entries : List α} {a : α} :
    a ∈ order.visit entries ↔ a ∈ entries :=
  (order.perm entries).mem_iff

/-! ## Groups -/

section Groups

variable [DecidableEq κ]

def push (key : κ) (value : β) : List (κ × List β) → List (κ × List β)
  | [] => [(key, [value])]
  | (k, values) :: rest =>
      if k = key then (k, values ++ [value]) :: rest else (k, values) :: push key value rest

def groupBy (key : α → κ) (value : α → β) (entries : List α) : List (κ × List β) :=
  entries.foldl (fun groups a => push (key a) (value a) groups) []

structure IsGrouping (key : α → κ) (value : α → β) (entries : List α)
    (groups : List (κ × List β)) : Prop where
  nodup : (groups.map Prod.fst).Nodup
  values : ∀ group ∈ groups,
    group.2 = (entries.filter fun a => key a = group.1).map value
  covers : ∀ k, k ∈ groups.map Prod.fst ↔ ∃ a ∈ entries, key a = k

theorem mem_keys_push {key k : κ} {value : β} {groups : List (κ × List β)} :
    k ∈ (push key value groups).map Prod.fst ↔ k = key ∨ k ∈ groups.map Prod.fst := by
  induction groups with
  | nil => simp [push]
  | cons group rest ih =>
      obtain ⟨k', values⟩ := group
      unfold push
      split
      · next h =>
          subst h
          simp
      · simp only [List.map_cons, List.mem_cons, ih]
        exact or_left_comm

theorem nodup_keys_push {key : κ} {value : β} {groups : List (κ × List β)}
    (h : (groups.map Prod.fst).Nodup) : ((push key value groups).map Prod.fst).Nodup := by
  induction groups with
  | nil => simp [push]
  | cons group rest ih =>
      obtain ⟨k, values⟩ := group
      obtain ⟨hk, hrest⟩ := List.nodup_cons.mp h
      unfold push
      split
      · exact h
      · next hne =>
          refine List.nodup_cons.mpr ⟨fun hmem => ?_, ih hrest⟩
          rcases mem_keys_push.mp hmem with heq | hin
          · exact hne heq
          · exact hk hin

theorem mem_push {key : κ} {value : β} {groups : List (κ × List β)} {group : κ × List β}
    (hnodup : (groups.map Prod.fst).Nodup) (h : group ∈ push key value groups) :
    group.1 ≠ key ∧ group ∈ groups ∨
      group.1 = key ∧ ((∃ old ∈ groups, old.1 = key ∧ group.2 = old.2 ++ [value]) ∨
        key ∉ groups.map Prod.fst ∧ group.2 = [value]) := by
  induction groups with
  | nil =>
      obtain rfl : group = (key, [value]) := List.mem_singleton.mp h
      exact .inr ⟨rfl, .inr ⟨List.not_mem_nil, rfl⟩⟩
  | cons head rest ih =>
      obtain ⟨k, values⟩ := head
      obtain ⟨hk, hrest⟩ := List.nodup_cons.mp hnodup
      unfold push at h
      split at h
      · next hkey =>
          subst hkey
          rcases List.mem_cons.mp h with rfl | hin
          · exact .inr ⟨rfl, .inl ⟨_, List.mem_cons_self, rfl, rfl⟩⟩
          · have hkeys : group.1 ∈ rest.map Prod.fst := List.mem_map_of_mem hin
            exact .inl ⟨fun heq => hk (heq ▸ hkeys), List.mem_cons_of_mem _ hin⟩
      · next hkey =>
          rcases List.mem_cons.mp h with rfl | hin
          · exact .inl ⟨hkey, List.mem_cons_self⟩
          · rcases ih hrest hin with ⟨hne, hold⟩ | ⟨heq, hvalue⟩
            · exact .inl ⟨hne, List.mem_cons_of_mem _ hold⟩
            · refine .inr ⟨heq, ?_⟩
              rcases hvalue with ⟨old, hold, hkeyold, hvalue⟩ | ⟨hfresh, hvalue⟩
              · exact .inl ⟨old, List.mem_cons_of_mem _ hold, hkeyold, hvalue⟩
              · refine .inr ⟨fun hmem => ?_, hvalue⟩
                rcases List.mem_cons.mp hmem with heq' | hmem
                · exact hkey heq'.symm
                · exact hfresh hmem

theorem IsGrouping.push {key : α → κ} {value : α → β} {entries : List α}
    {groups : List (κ × List β)} (h : IsGrouping key value entries groups) (a : α) :
    IsGrouping key value (entries ++ [a]) (push (key a) (value a) groups) where
  nodup := nodup_keys_push h.nodup
  values := by
    intro group hgroup
    rw [List.filter_append, List.map_append]
    rcases mem_push h.nodup hgroup with ⟨hne, hold⟩ | ⟨heq, hvalue⟩
    · have hother : [a].filter (fun b => key b = group.1) = [] := by
        simp [hne.symm]
      rw [hother, List.map_nil, List.append_nil]
      exact h.values group hold
    · have hsame : [a].filter (fun b => key b = group.1) = [a] := by
        simp [heq]
      rw [hsame, List.map_singleton]
      rcases hvalue with ⟨old, hold, hkeyold, hvalue⟩ | ⟨hfresh, hvalue⟩
      · rw [hvalue, h.values old hold, hkeyold, heq]
      · have hnone : entries.filter (fun b => key b = group.1) = [] := by
          rw [List.filter_eq_nil_iff]
          intro b hb hkeyb
          refine hfresh ((h.covers (key a)).mpr ⟨b, hb, ?_⟩)
          rw [← heq]
          exact of_decide_eq_true hkeyb
        rw [hvalue, hnone]
        rfl
  covers := by
    intro k
    rw [mem_keys_push, h.covers k]
    constructor
    · rintro (rfl | ⟨b, hb, hkey⟩)
      · exact ⟨a, by simp, rfl⟩
      · exact ⟨b, List.mem_append_left _ hb, hkey⟩
    · rintro ⟨b, hb, hkey⟩
      rcases List.mem_append.mp hb with hold | hnew
      · exact .inr ⟨b, hold, hkey⟩
      · exact .inl (by rw [← hkey, List.mem_singleton.mp hnew])

theorem isGrouping_groupBy (key : α → κ) (value : α → β) (entries : List α) :
    IsGrouping key value entries (groupBy key value entries) := by
  induction entries using List.reverseRecOn with
  | nil =>
      constructor
      · exact List.nodup_nil
      · exact fun group hgroup => absurd hgroup List.not_mem_nil
      · exact fun k => by simp [groupBy]
  | append_singleton entries a ih =>
      have hpush := ih.push a
      unfold groupBy at hpush ⊢
      rwa [List.foldl_append]

theorem IsGrouping.visit {key : α → κ} {value : α → β} {entries : List α}
    {groups : List (κ × List β)} (h : IsGrouping key value entries groups)
    (order : HashOrder) : IsGrouping key value entries (order.visit groups) where
  nodup := ((order.perm groups).map Prod.fst).nodup_iff.mpr h.nodup
  values := fun group hgroup => h.values group (order.mem_visit.mp hgroup)
  covers := fun k => by
    rw [((order.perm groups).map Prod.fst).mem_iff]
    exact h.covers k

theorem IsGrouping.mem_values {key : α → κ} {value : α → β} {entries : List α}
    {groups : List (κ × List β)} (h : IsGrouping key value entries groups)
    {group : κ × List β} (hgroup : group ∈ groups) {b : β} (hb : b ∈ group.2) :
    ∃ a ∈ entries, key a = group.1 ∧ value a = b := by
  rw [h.values group hgroup] at hb
  obtain ⟨a, ha, hvalue⟩ := List.mem_map.mp hb
  obtain ⟨ha, hkey⟩ := List.mem_filter.mp ha
  exact ⟨a, ha, of_decide_eq_true hkey, hvalue⟩

theorem IsGrouping.exists_entry {key : α → κ} {value : α → β} {entries : List α}
    {groups : List (κ × List β)} (h : IsGrouping key value entries groups)
    {group : κ × List β} (hgroup : group ∈ groups) : ∃ a ∈ entries, key a = group.1 :=
  (h.covers group.1).mp (List.mem_map_of_mem hgroup)

theorem IsGrouping.ne_nil {key : α → κ} {value : α → β} {entries : List α}
    {groups : List (κ × List β)} (h : IsGrouping key value entries groups)
    (hne : entries ≠ []) : groups ≠ [] := by
  rintro rfl
  obtain ⟨a, ha⟩ := List.exists_mem_of_ne_nil entries hne
  exact List.not_mem_nil ((h.covers (key a)).mpr ⟨a, ha, rfl⟩)

theorem IsGrouping.eq_singleton {key : α → κ} {value : α → β} {entries : List α}
    {k : κ} {values : List β} (h : IsGrouping key value entries [(k, values)]) :
    (∀ a ∈ entries, key a = k) ∧ values = entries.map value := by
  have hkeys : ∀ a ∈ entries, key a = k := fun a ha =>
    List.mem_singleton.mp ((h.covers (key a)).mpr ⟨a, ha, rfl⟩)
  refine ⟨hkeys, ?_⟩
  have hvalues : values = (entries.filter fun a => key a = k).map value :=
    h.values (k, values) List.mem_cons_self
  rw [hvalues, List.filter_eq_self.mpr fun a ha => decide_eq_true (hkeys a ha)]

theorem IsGrouping.length_eq_one {key : α → κ} {value : α → β} {entries : List α}
    {groups : List (κ × List β)} (h : IsGrouping key value entries groups) {k : κ}
    (hne : entries ≠ []) (hkeys : ∀ a ∈ entries, key a = k) :
    ∃ values, groups = [(k, values)] := by
  have hall : ∀ group ∈ groups, group.1 = k := by
    intro group hgroup
    obtain ⟨a, ha, hkey⟩ := h.exists_entry hgroup
    rw [← hkey, hkeys a ha]
  obtain ⟨a, ha⟩ := List.exists_mem_of_ne_nil entries hne
  match groups, h.nodup with
  | [], _ => exact absurd ((h.covers (key a)).mpr ⟨a, ha, rfl⟩) List.not_mem_nil
  | [(k', values)], _ =>
      obtain rfl : k' = k := hall (k', values) List.mem_cons_self
      exact ⟨values, rfl⟩
  | first :: second :: rest, hnodup =>
      have hsame : first.1 = second.1 :=
        (hall first List.mem_cons_self).trans
          (hall second (List.mem_cons_of_mem _ List.mem_cons_self)).symm
      exact absurd (hsame ▸ List.mem_cons_self) (List.nodup_cons.mp hnodup).1

end Groups

/-! ## Largest entries -/

def maxByKey (f : α → Nat) : List α → Option α
  | [] => none
  | a :: rest =>
      match maxByKey f rest with
      | none => some a
      | some b => if f a ≤ f b then some b else some a

theorem mem_of_maxByKey {f : α → Nat} {entries : List α} {a : α}
    (h : maxByKey f entries = some a) : a ∈ entries := by
  induction entries generalizing a with
  | nil => cases h
  | cons b rest ih =>
      unfold maxByKey at h
      split at h
      · cases h
        exact List.mem_cons_self
      · next c hc =>
          split at h
          · cases h
            exact List.mem_cons_of_mem b (ih hc)
          · cases h
            exact List.mem_cons_self

theorem maxByKey_isSome {f : α → Nat} {entries : List α} (h : entries ≠ []) :
    ∃ a, maxByKey f entries = some a := by
  match entries, h with
  | a :: rest, _ =>
      unfold maxByKey
      split
      · exact ⟨a, rfl⟩
      · next b _ =>
          split
          · exact ⟨b, rfl⟩
          · exact ⟨a, rfl⟩

/-! ## Maps filled in an order -/

section Filling

variable [DecidableEq κ]

theorem lookup_eq_some_iff_mem {entries : List (κ × β)} {k : κ} {b : β}
    (hkeys : (entries.map Prod.fst).Nodup) : entries.lookup k = some b ↔ (k, b) ∈ entries := by
  induction entries with
  | nil => simp
  | cons entry entries ih =>
      have hnodup := List.nodup_cons.mp hkeys
      by_cases hk : k = entry.1
      · subst hk
        rw [List.lookup_cons_self, Option.some_inj, List.mem_cons]
        constructor
        · intro h
          exact Or.inl (by rw [← h])
        · intro h
          rcases h with heq | hmem
          · rw [← heq]
          · exact absurd (List.mem_map_of_mem (f := Prod.fst) hmem) hnodup.1
      · have hne : (k, b) ≠ entry := fun heq => hk (by rw [← heq])
        rw [List.lookup_cons, beq_false_of_ne hk, List.mem_cons, or_iff_right hne]
        exact ih hnodup.2

theorem IsGrouping.lookup {key : α → κ} {value : α → β} {entries : List α}
    {groups : List (κ × List β)} (h : IsGrouping key value entries groups) (k : κ) :
    groups.lookup k =
      if ∃ a ∈ entries, key a = k then some ((entries.filter fun a => key a = k).map value)
      else none := by
  split
  · next hex =>
      obtain ⟨group, hgroup, hk⟩ := List.mem_map.mp ((h.covers k).mpr hex)
      rw [lookup_eq_some_iff_mem h.nodup, ← hk, ← h.values group hgroup]
      exact hgroup
  · next hnone =>
      cases hlookup : groups.lookup k with
      | none => rfl
      | some values =>
          have hmem := (lookup_eq_some_iff_mem h.nodup).mp hlookup
          exact absurd ((h.covers k).mp (List.mem_map_of_mem hmem)) hnone

theorem count_flatMap_filter [DecidableEq α] (key : α → κ) (keys : List κ) (entries : List α)
    (a : α) :
    (keys.flatMap fun k => entries.filter fun b => key b = k).count a =
      keys.count (key a) * entries.count a := by
  induction keys with
  | nil => simp
  | cons k keys ih =>
      rw [List.flatMap_cons, List.count_append, ih, List.count_cons, Nat.add_mul]
      by_cases hk : key a = k
      · rw [List.count_filter (by simpa using hk), if_pos (by simpa using hk.symm), Nat.one_mul,
          Nat.add_comm]
      · have hnot : a ∉ entries.filter fun b => key b = k := fun hmem =>
          hk (of_decide_eq_true (List.mem_filter.mp hmem).2)
        rw [List.count_eq_zero.mpr hnot, if_neg (by simpa using Ne.symm hk), Nat.zero_mul,
          Nat.add_comm]

def insertAll (map : AList fun _ : κ => β) (entries : List ((_ : κ) × β)) :
    AList fun _ : κ => β :=
  entries.foldl (fun map entry => map.insert entry.1 entry.2) map

theorem lookup_insertAll_append (map : AList fun _ : κ => β)
    (entries later : List ((_ : κ) × β)) (k : κ) :
    (insertAll map (entries ++ later)).lookup k =
      ((insertAll ∅ later).lookup k).or ((insertAll map entries).lookup k) := by
  induction later using List.reverseRecOn with
  | nil => simp [insertAll]
  | append_singleton later entry ih =>
      have hlast : ∀ (m : AList fun _ : κ => β) es,
          insertAll m (es ++ [entry]) = (insertAll m es).insert entry.1 entry.2 := by
        intro m es
        simp only [insertAll, List.foldl_append, List.foldl_cons, List.foldl_nil]
      rw [← List.append_assoc, hlast, hlast]
      by_cases hk : k = entry.1
      · rw [hk, AList.lookup_insert, AList.lookup_insert, Option.some_or]
      · rw [AList.lookup_insert_ne hk, AList.lookup_insert_ne hk, ih]

theorem mem_insertAll_append {entries later : List ((_ : κ) × β)} {k : κ} {b : β} :
    ⟨k, b⟩ ∈ (insertAll ∅ (entries ++ later)).entries ↔
      ⟨k, b⟩ ∈ (insertAll ∅ later).entries ∨
        (∀ b', ⟨k, b'⟩ ∉ (insertAll ∅ later).entries) ∧
          ⟨k, b⟩ ∈ (insertAll ∅ entries).entries := by
  simp only [← AList.mem_lookup_iff, lookup_insertAll_append, Option.mem_def]
  cases hlater : (insertAll ∅ later).lookup k with
  | none => simp
  | some b' =>
      simp only [Option.some_or]
      constructor
      · exact Or.inl
      · rintro (h | ⟨hnone, -⟩)
        · exact h
        · exact absurd rfl (hnone b')

theorem mem_insertAll_singleton {entry : (_ : κ) × β} {k : κ} {b : β} :
    ⟨k, b⟩ ∈ (insertAll ∅ [entry]).entries ↔ (⟨k, b⟩ : (_ : κ) × β) = entry := by
  obtain ⟨k', b'⟩ := entry
  simp [insertAll, AList.insert_empty]

theorem mem_insertAll_append_singleton (entries : List ((_ : κ) × β)) (entry : (_ : κ) × β) :
    entry ∈ (insertAll ∅ (entries ++ [entry])).entries :=
  mem_insertAll_append.mpr (.inl (mem_insertAll_singleton.mpr rfl))

theorem mem_of_mem_insertAll {entries : List ((_ : κ) × β)} {entry : (_ : κ) × β}
    (h : entry ∈ (insertAll ∅ entries).entries) : entry ∈ entries := by
  induction entries using List.reverseRecOn with
  | nil => exact absurd h List.not_mem_nil
  | append_singleton entries last ih =>
      rcases mem_insertAll_append.mp h with hlast | ⟨-, hearlier⟩
      · exact List.mem_append_right _ (List.mem_singleton.mpr (mem_insertAll_singleton.mp hlast))
      · exact List.mem_append_left _ (ih hearlier)

theorem exists_mem_insertAll {entries : List ((_ : κ) × β)} {entry : (_ : κ) × β}
    (h : entry ∈ entries) : ∃ b, ⟨entry.1, b⟩ ∈ (insertAll ∅ entries).entries := by
  induction entries using List.reverseRecOn with
  | nil => exact absurd h List.not_mem_nil
  | append_singleton entries last ih =>
      by_cases hkey : entry.1 = last.1
      · exact ⟨last.2, hkey ▸ mem_insertAll_append_singleton entries last⟩
      · rcases List.mem_append.mp h with hearlier | hlast
        · obtain ⟨b, hb⟩ := ih hearlier
          refine ⟨b, mem_insertAll_append.mpr (.inr ⟨fun b' hb' => ?_, hb⟩)⟩
          have hsame : entry.1 = last.1 := by rw [← mem_insertAll_singleton.mp hb']
          exact hkey hsame
        · exact absurd (congrArg Sigma.fst (List.mem_singleton.mp hlast)) hkey

theorem lookup_insertAll_of_nodupKeys {map : AList fun _ : κ => β}
    {entries : List ((_ : κ) × β)} (h : entries.NodupKeys) (k : κ) :
    (insertAll map entries).lookup k = (entries.dlookup k).or (map.lookup k) := by
  induction entries generalizing map with
  | nil => simp [insertAll]
  | cons entry entries ih =>
      have hrest := List.nodupKeys_cons.mp h
      change (insertAll (map.insert entry.1 entry.2) entries).lookup k = _
      rw [ih hrest.2]
      by_cases hk : k = entry.1
      · subst hk
        rw [List.dlookup_eq_none.mpr hrest.1, AList.lookup_insert, List.dlookup_cons_eq]
        rfl
      · rw [AList.lookup_insert_ne hk, List.dlookup_cons_ne _ _ hk]

theorem lookup_insertAll_visit (order : HashOrder) (map map' : AList fun _ : κ => β) (k : κ) :
    (insertAll map (order.visit map'.entries)).lookup k =
      (map'.lookup k).or (map.lookup k) := by
  have hperm := order.perm map'.entries
  have hnodup : (order.visit map'.entries).NodupKeys :=
    (List.perm_nodupKeys hperm).mpr map'.nodupKeys
  rw [lookup_insertAll_of_nodupKeys hnodup, List.perm_dlookup k hnodup hperm]
  rfl

theorem dlookup_filter (p : κ → Bool) (entries : List ((_ : κ) × β)) (k : κ) :
    (entries.filter fun entry => p entry.1).dlookup k =
      if p k then entries.dlookup k else none := by
  induction entries with
  | nil => simp
  | cons entry entries ih =>
      obtain ⟨k', b⟩ := entry
      by_cases hk : k = k'
      · subst hk
        cases hp : p k with
        | true => simp [hp]
        | false => simp [hp, ih]
      · have hne : List.dlookup k (⟨k', b⟩ :: entries) = List.dlookup k entries :=
          List.dlookup_cons_ne entries ⟨k', b⟩ hk
        rw [List.filter_cons, hne, ← ih]
        cases hp : p k' with
        | true => exact List.dlookup_cons_ne _ (⟨k', b⟩ : (_ : κ) × β) hk
        | false => rfl

end Filling

end FancyMumble.Lib.Grouping
