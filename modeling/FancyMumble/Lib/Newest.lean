import Mathlib.Data.List.MinMax
import Mathlib.Data.Set.Function

/-!
# Registers that keep the newest value

A register takes over a value only if its stamp is later than that of the value it
holds. What it holds in the end depends on which values it was given, and not on
their order, as long as no two of them share a stamp.
-/

namespace FancyMumble.Lib.Newest

variable {α τ : Type*} [LinearOrder τ] (stamp : α → τ)

def keepNewest (held : Option α) (new : α) : Option α :=
  if held.any (stamp new ≤ stamp ·) then held else some new

/-- `newest` is what is left of a held value and of values given to the register: one of
them, with a stamp that is not earlier than that of any other one. -/
structure IsNewest (held : Option α) (values : List α) (newest : Option α) : Prop where
  source : newest = held ∨ ∃ value ∈ values, newest = some value
  latest : ∀ value, held = some value ∨ value ∈ values →
    ∃ latest, newest = some latest ∧ stamp value ≤ stamp latest
  /-- The held value gives way to later ones only. -/
  later : newest ≠ held → ∀ old, held = some old →
    ∃ latest, newest = some latest ∧ stamp old < stamp latest

variable {stamp}

theorem keepNewest_of_some {old new : α} :
    keepNewest stamp (some old) new = if stamp new ≤ stamp old then some old else some new := by
  simp [keepNewest]

/-- Giving a value to the register leaves the newer one of two in it. -/
theorem isNewest_keepNewest (held : Option α) (new : α) :
    IsNewest stamp held [new] (keepNewest stamp held new) := by
  cases held with
  | none =>
      refine ⟨.inr ⟨new, List.mem_singleton_self new, rfl⟩, fun value hvalue => ?_, ?_⟩
      · rcases hvalue with hvalue | hvalue
        · cases hvalue
        · cases List.mem_singleton.mp hvalue
          exact ⟨new, rfl, le_rfl⟩
      · rintro - old hold
        cases hold
  | some old =>
      rw [keepNewest_of_some]
      split
      next hle =>
        refine ⟨.inl rfl, fun value hvalue => ⟨old, rfl, ?_⟩, fun hne => absurd rfl hne⟩
        rcases hvalue with hvalue | hvalue
        · cases hvalue
          exact le_rfl
        · cases List.mem_singleton.mp hvalue
          exact hle
      next hlt =>
        rw [not_le] at hlt
        refine ⟨.inr ⟨new, List.mem_singleton_self new, rfl⟩,
          fun value hvalue => ⟨new, rfl, ?_⟩, ?_⟩
        · rcases hvalue with hvalue | hvalue
          · cases hvalue
            exact hlt.le
          · cases List.mem_singleton.mp hvalue
            exact le_rfl
        · rintro - value hvalue
          cases hvalue
          exact ⟨new, rfl, hlt⟩

namespace IsNewest

variable {held middle newest : Option α} {values values' : List α}

theorem refl (held : Option α) : IsNewest stamp held [] held where
  source := .inl rfl
  latest := fun value hvalue =>
    ⟨value, hvalue.resolve_right List.not_mem_nil, le_rfl⟩
  later := fun hne => absurd rfl hne

theorem append (h : IsNewest stamp held values middle)
    (h' : IsNewest stamp middle values' newest) :
    IsNewest stamp held (values ++ values') newest where
  source := by
    rcases h'.source with rfl | ⟨value, hvalue, hnewest⟩
    · rcases h.source with heq | ⟨value, hvalue, hnewest⟩
      · exact .inl heq
      · exact .inr ⟨value, List.mem_append_left _ hvalue, hnewest⟩
    · exact .inr ⟨value, List.mem_append_right _ hvalue, hnewest⟩
  latest := by
    intro value hvalue
    by_cases hlate : value ∈ values'
    · exact h'.latest value (.inr hlate)
    · have hearly : held = some value ∨ value ∈ values := by
        refine hvalue.imp_right fun hmem => ?_
        exact (List.mem_append.mp hmem).resolve_right hlate
      obtain ⟨between, hmiddle, hle⟩ := h.latest value hearly
      obtain ⟨latest, hnewest, hle'⟩ := h'.latest between (.inl hmiddle)
      exact ⟨latest, hnewest, hle.trans hle'⟩
  later := by
    intro hne old hold
    by_cases hmiddle : middle = held
    · exact h'.later (hmiddle ▸ hne) old (hmiddle ▸ hold)
    · obtain ⟨between, hbetween, hlt⟩ := h.later hmiddle old hold
      obtain ⟨latest, hnewest, hle⟩ := h'.latest between (.inl hbetween)
      exact ⟨latest, hnewest, hlt.trans_le hle⟩

theorem unique {newest' : Option α} (h : IsNewest stamp held values newest)
    (h' : IsNewest stamp held values' newest') (hmem : ∀ value, value ∈ values' ↔ value ∈ values)
    (hstamps : Set.InjOn stamp {value | value ∈ values}) : newest = newest' := by
  by_cases hkept : newest = held
  · by_cases hkept' : newest' = held
    · rw [hkept, hkept']
    · -- the second register holds a given value, later than the one the first one kept
      obtain ⟨value, hvalue, rfl⟩ := h'.source.resolve_left hkept'
      obtain ⟨latest, hnewest, hle⟩ := h.latest value (.inr ((hmem value).mp hvalue))
      obtain ⟨later, hlater, hlt⟩ := h'.later hkept' latest (hkept ▸ hnewest)
      cases hlater
      exact absurd hle (not_le.mpr hlt)
  · obtain ⟨value, hvalue, rfl⟩ := h.source.resolve_left hkept
    obtain ⟨latest, rfl, hle⟩ := h'.latest value (.inr ((hmem value).mpr hvalue))
    by_cases hkept' : some latest = held
    · obtain ⟨later, hlater, hlt⟩ := h.later hkept latest hkept'.symm
      cases hlater
      exact absurd hle (not_le.mpr hlt)
    · obtain ⟨value', hvalue', hlatest⟩ := h'.source.resolve_left hkept'
      cases hlatest
      have hmem' : latest ∈ values := (hmem latest).mp hvalue'
      obtain ⟨other, hother, hle'⟩ := h.latest latest (.inr hmem')
      cases hother
      rw [hstamps hvalue hmem' (le_antisymm hle hle')]

theorem stamp_le {old : α} (h : IsNewest stamp held values newest) (hold : held = some old) :
    ∃ latest, newest = some latest ∧ stamp old ≤ stamp latest :=
  h.latest old (.inl hold)

end IsNewest

theorem isNewest_foldl (held : Option α) (values : List α) :
    IsNewest stamp held values (values.foldl (keepNewest stamp) held) := by
  induction values generalizing held with
  | nil => exact .refl held
  | cons value values ih => exact (isNewest_keepNewest held value).append (ih _)

/-! ## Registers that take over ties -/

section TakeNewest

variable (stamp)

/-- The register after a value has been given to it, when it takes over a value with the stamp
of the one that it holds. -/
def takeNewest (held : Option α) (new : α) : Option α :=
  if held.any (stamp new < stamp ·) then held else some new

variable {stamp} {held : Option α} {values values' : List α} {v : α}

theorem takeNewest_of_le (h : ∀ old, held = some old → stamp old ≤ stamp v) :
    takeNewest stamp held v = some v := by
  cases held with
  | none => rfl
  | some old => exact if_neg (by simpa using h old rfl)

theorem takeNewest_of_lt {old : α} (h : stamp v < stamp old) :
    takeNewest stamp (some old) v = some old := if_pos (by simpa using h)

theorem foldl_takeNewest_mem (held : Option α) (values : List α) {r : α}
    (h : values.foldl (takeNewest stamp) held = some r) : held = some r ∨ r ∈ values := by
  induction values generalizing held with
  | nil => exact .inl h
  | cons value values ih =>
      rcases ih _ h with hfirst | hrest
      · rw [takeNewest] at hfirst
        split at hfirst
        · exact .inl hfirst
        · cases hfirst
          exact .inr List.mem_cons_self
      · exact .inr (List.mem_cons_of_mem _ hrest)

theorem exists_foldl_takeNewest (stamp : α → τ) (old : α) (values : List α) :
    ∃ newest, values.foldl (takeNewest stamp) (some old) = some newest := by
  induction values generalizing old with
  | nil => exact ⟨old, rfl⟩
  | cons value values ih =>
      rw [List.foldl_cons, takeNewest]
      split
      · exact ih old
      · exact ih value

theorem foldl_takeNewest_of_lt (hvalues : ∀ value ∈ values, value = v ∨ stamp value < stamp v)
    (hheld : ∀ old, held = some old → stamp old ≤ stamp v) (hthere : held = some v ∨ v ∈ values) :
    values.foldl (takeNewest stamp) held = some v := by
  induction values generalizing held with
  | nil => exact hthere.resolve_right List.not_mem_nil
  | cons value values ih =>
      rw [List.foldl_cons]
      have hrest : ∀ value' ∈ values, value' = v ∨ stamp value' < stamp v :=
        fun value' hvalue' => hvalues value' (List.mem_cons_of_mem value hvalue')
      rcases hvalues value List.mem_cons_self with rfl | hlt
      · rw [takeNewest_of_le hheld]
        exact ih hrest (fun old hold => (Option.some.inj hold) ▸ le_rfl) (.inl rfl)
      · refine ih hrest (fun old hold => ?_) (hthere.imp (fun hv => ?_) fun hv => ?_)
        · rcases foldl_takeNewest_mem held [value] hold with hold | hold
          · exact hheld old hold
          · rw [List.mem_singleton.mp hold]
            exact hlt.le
        · rw [hv, takeNewest_of_lt hlt]
        · refine (List.mem_cons.mp hv).resolve_left fun heq => ?_
          exact absurd hlt (heq ▸ lt_irrefl _)

theorem foldl_takeNewest_concat (held : Option α)
    (h : ∀ value, held = some value ∨ value ∈ values → stamp value ≤ stamp v) :
    (values ++ [v]).foldl (takeNewest stamp) held = some v := by
  rw [List.foldl_append]
  exact takeNewest_of_le fun old hold => h old (foldl_takeNewest_mem held values hold)

/-- No other value has the stamp of a newest one. -/
def NewestAgree (stamp : α → τ) (held : Option α) (values : List α) : Prop :=
  ∀ a ∈ values, ∀ b ∈ values,
    (∀ value, held = some value ∨ value ∈ values → stamp value ≤ stamp a) →
      stamp b = stamp a → a = b

theorem foldl_takeNewest_of_agree (hagree : NewestAgree stamp held values) (hv : v ∈ values)
    (hnewest : ∀ value, held = some value ∨ value ∈ values → stamp value ≤ stamp v) :
    values.foldl (takeNewest stamp) held = some v := by
  refine foldl_takeNewest_of_lt (fun value hvalue => ?_) (fun old hold => hnewest old (.inl hold))
    (.inr hv)
  by_cases hstamp : stamp value = stamp v
  · exact .inl (hagree v hv value hvalue hnewest hstamp).symm
  · exact .inr (lt_of_le_of_ne (hnewest value (.inr hvalue)) hstamp)

theorem exists_newest (stamp : α → τ) (held : Option α) (values : List α) :
    (∃ v ∈ values, ∀ value, held = some value ∨ value ∈ values → stamp value ≤ stamp v) ∨
      values = [] ∨ ∃ old, held = some old ∧ ∀ value ∈ values, stamp value < stamp old := by
  cases hmax : values.argmax stamp with
  | none => exact .inr (.inl (List.argmax_eq_none.mp hmax))
  | some v =>
      have hle : ∀ value ∈ values, stamp value ≤ stamp v :=
        fun value hvalue => List.le_of_mem_argmax hvalue hmax
      by_cases hheld : ∃ old, held = some old ∧ stamp v < stamp old
      · obtain ⟨old, hold, hlt⟩ := hheld
        exact .inr (.inr ⟨old, hold, fun value hvalue => (hle value hvalue).trans_lt hlt⟩)
      · refine .inl ⟨v, List.argmax_mem hmax, fun value hvalue => ?_⟩
        rcases hvalue with hold | hvalue
        · exact not_lt.mp fun hlt => hheld ⟨value, hold, hlt⟩
        · exact hle value hvalue

/-- The values can be given in any order exactly if the newest ones agree. -/
theorem foldl_takeNewest_perm_iff :
    (∀ values₁ values₂ : List α, values₁.Perm values → values₂.Perm values →
      values₁.foldl (takeNewest stamp) held = values₂.foldl (takeNewest stamp) held) ↔
      NewestAgree stamp held values := by
  constructor
  · intro hperm a ha b hb hnewest hstamp
    -- either of them can be the last one
    have hlast : ∀ v ∈ values, stamp v = stamp a →
        ∃ values' : List α, values'.Perm values ∧
          values'.foldl (takeNewest stamp) held = some v := by
      intro v hv hva
      obtain ⟨before, after, rfl⟩ := List.append_of_mem hv
      have hlist : ((before ++ after) ++ [v]).Perm (before ++ v :: after) := by
        rw [List.append_assoc]
        exact (List.perm_append_singleton v after).append_left before
      refine ⟨_, hlist, foldl_takeNewest_concat held fun value hvalue => ?_⟩
      rw [hva]
      refine hnewest value (hvalue.imp_right fun hmem => ?_)
      exact hlist.subset (List.mem_append_left _ hmem)
    obtain ⟨values₁, hperm₁, hfold₁⟩ := hlast a ha rfl
    obtain ⟨values₂, hperm₂, hfold₂⟩ := hlast b hb hstamp
    have hsame := hperm values₁ values₂ hperm₁ hperm₂
    rw [hfold₁, hfold₂] at hsame
    exact Option.some.inj hsame
  · intro hagree
    have hany : ∃ newest, ∀ values' : List α, values'.Perm values →
        values'.foldl (takeNewest stamp) held = newest := by
      rcases exists_newest stamp held values with ⟨v, hv, hnewest⟩ | rfl | ⟨old, rfl, hlt⟩
      · refine ⟨some v, fun values' hperm => ?_⟩
        refine foldl_takeNewest_of_agree ?_ (hperm.mem_iff.mpr hv) fun value hvalue => ?_
        · intro a ha b hb hnewest' hstamp
          refine hagree a (hperm.mem_iff.mp ha) b (hperm.mem_iff.mp hb) (fun value hvalue => ?_)
            hstamp
          exact hnewest' value (hvalue.imp_right hperm.mem_iff.mpr)
        · exact hnewest value (hvalue.imp_right hperm.mem_iff.mp)
      · refine ⟨held, fun values' hperm => ?_⟩
        rw [hperm.eq_nil]
        rfl
      · refine ⟨some old, fun values' hperm => ?_⟩
        refine foldl_takeNewest_of_lt (fun value hvalue => .inr ?_) (fun old' hold => ?_) (.inl rfl)
        · exact hlt value (hperm.mem_iff.mp hvalue)
        · exact (Option.some.inj hold) ▸ le_rfl
    obtain ⟨newest, hnewest⟩ := hany
    intro values₁ values₂ hperm₁ hperm₂
    rw [hnewest values₁ hperm₁, hnewest values₂ hperm₂]

end TakeNewest

end FancyMumble.Lib.Newest
