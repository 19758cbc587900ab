import FancyMumble.Lib.Runs
import Mathlib.Data.List.Nodup

/-!
# Mount claims of watch sessions

The first card that renders a watch session takes the claim to play it. A card claims when it is
mounted and when it turns to another session, and releases when it is unmounted or turns away.
-/

namespace FancyMumble.Interface.WatchMounts

open Lib.Runs

variable {S K : Type}

/-- The registry of claims, and the cards on the page: the session that the claim effect of each
one has run for. -/
structure Page (S K : Type) where
  claims : S → Option K := fun _ => none
  cards : K → Option S := fun _ => none

/-- What React renders in one go: cards that leave the page, and cards that are mounted or
rendered again, in the order of their effects. No two of these have one mount key. -/
structure Commit (S K : Type) where
  unmounts : List K
  renders : List (K × S)
  distinct : (renders.map Prod.fst).Nodup

namespace Page

def ownsWatchMount [DecidableEq K] (self : Page S K) (sessionId : S) (mountKey : K) : Bool :=
  self.claims sessionId = some mountKey

variable [DecidableEq S] [DecidableEq K]

def claimWatchMount (self : Page S K) (sessionId : S) (mountKey : K) : Page S K :=
  match self.claims sessionId with
  | some _ => self
  | none => { self with claims := Function.update self.claims sessionId (some mountKey) }

def releaseWatchMount (self : Page S K) (sessionId : S) (mountKey : K) : Page S K :=
  if self.claims sessionId = some mountKey then
    { self with claims := Function.update self.claims sessionId none }
  else self

def cleanup (self : Page S K) (mountKey : K) : Page S K :=
  match self.cards mountKey with
  | none => self
  | some sessionId =>
      { self.releaseWatchMount sessionId mountKey with
        cards := Function.update self.cards mountKey none }

def effect (self : Page S K) (render : K × S) : Page S K :=
  match self.cards render.1 with
  | some _ => self
  | none =>
      { self.claimWatchMount render.2 render.1 with
        cards := Function.update self.cards render.1 (some render.2) }

/-- The cards whose effect is cleaned up: those that leave the page, and those that show another
session now. -/
def leaving (self : Page S K) (commit : Commit S K) : List K :=
  commit.unmounts ++
    (commit.renders.filter fun render =>
      (self.cards render.1).isSome && self.cards render.1 != some render.2).map Prod.fst

def commit (self : Page S K) (commit : Commit S K) : Page S K :=
  commit.renders.foldl effect ((self.leaving commit).foldl cleanup self)

/-! ## Who plays a session -/

section

variable {S K : Type} [DecidableEq K] {p : Page S K} {k : K} {s : S}

def Plays (p : Page S K) (s : S) (k : K) : Prop :=
  p.cards k = some s ∧ p.ownsWatchMount s k = true

/-- No session is played twice, and a session that a card shows is played. -/
structure PlaysOnce (p : Page S K) : Prop where
  once : ∀ s k k', p.Plays s k → p.Plays s k' → k = k'
  played : ∀ s, (∃ k, p.cards k = some s) → ∃ k, p.Plays s k

def Held (p : Page S K) : Prop := ∀ s k, p.claims s = some k → p.cards k = some s

theorem plays_iff : p.Plays s k ↔ p.cards k = some s ∧ p.claims s = some k := by
  simp [Plays, ownsWatchMount]

theorem playsOnce_iff (h : p.Held) :
    p.PlaysOnce ↔ ∀ s k, p.cards k = some s → p.claims s ≠ none := by
  constructor
  · intro honce s k hcard
    obtain ⟨k', hplays⟩ := honce.played s ⟨k, hcard⟩
    rw [(plays_iff.mp hplays).2]
    exact Option.some_ne_none k'
  · intro hclaimed
    refine ⟨fun s k k' hk hk' => ?_, ?_⟩
    · exact Option.some.inj ((plays_iff.mp hk).2.symm.trans (plays_iff.mp hk').2)
    · rintro s ⟨k, hcard⟩
      obtain ⟨k', hclaim⟩ := Option.ne_none_iff_exists'.mp (hclaimed s k hcard)
      exact ⟨k', plays_iff.mpr ⟨h s k' hclaim, hclaim⟩⟩

end

variable {p : Page S K} {k k' : K} {s s' : S}

/-! ## Cleanups -/

theorem cards_cleanup : (p.cleanup k).cards k' = if k' = k then none else p.cards k' := by
  unfold cleanup
  cases hcard : p.cards k with
  | none =>
      by_cases hk : k' = k
      · simp [hk, hcard]
      · simp [hk]
  | some s =>
      by_cases hk : k' = k
      · simp [hk]
      · simp [hk]

theorem claims_cleanup (h : p.Held) :
    (p.cleanup k).claims s = if p.claims s = some k then none else p.claims s := by
  unfold cleanup
  cases hcard : p.cards k with
  | none =>
      have hnot : p.claims s ≠ some k := by
        intro hclaim
        exact Option.some_ne_none s ((h s k hclaim).symm.trans hcard)
      rw [if_neg hnot]
  | some s' =>
      show (p.releaseWatchMount s' k).claims s = _
      unfold releaseWatchMount
      by_cases hs : s = s'
      · subst hs
        split
        next => simp
        next => rfl
      · have hnot : p.claims s ≠ some k := by
          intro hclaim
          exact hs (Option.some.inj ((h s k hclaim).symm.trans hcard))
        rw [if_neg hnot]
        split
        next => simp [hs]
        next => rfl

theorem held_cleanup (h : p.Held) : (p.cleanup k).Held := by
  intro s k' hclaim
  rw [claims_cleanup h] at hclaim
  obtain ⟨hother, hheld⟩ := Option.ite_none_left_eq_some.mp hclaim
  have hne : k' ≠ k := by
    rintro rfl
    exact hother hheld
  rw [cards_cleanup, if_neg hne]
  exact h s k' hheld

theorem cards_cleanups (ks : List K) :
    (ks.foldl cleanup p).cards k = if k ∈ ks then none else p.cards k := by
  induction ks generalizing p with
  | nil => simp
  | cons k' ks ih =>
      rw [List.foldl_cons, ih, cards_cleanup]
      by_cases hk : k = k'
      · simp [hk]
      · simp [hk]

theorem held_cleanups (h : p.Held) (ks : List K) : (ks.foldl cleanup p).Held := by
  induction ks generalizing p with
  | nil => exact h
  | cons k ks ih => exact ih (held_cleanup h)

theorem claims_cleanups (h : p.Held) (ks : List K) :
    (ks.foldl cleanup p).claims s = some k ↔ p.claims s = some k ∧ k ∉ ks := by
  induction ks generalizing p with
  | nil => simp
  | cons k' ks ih =>
      rw [List.foldl_cons, ih (held_cleanup h), claims_cleanup h, Option.ite_none_left_eq_some,
        List.mem_cons, not_or]
      constructor
      · rintro ⟨⟨hne, hclaim⟩, hks⟩
        refine ⟨hclaim, ?_, hks⟩
        rintro rfl
        exact hne hclaim
      · rintro ⟨hclaim, hne, hks⟩
        refine ⟨⟨fun hother => ?_, hclaim⟩, hks⟩
        exact hne (Option.some.inj (hclaim.symm.trans hother))

/-! ## Effects -/

theorem cards_effect (render : K × S) :
    (p.effect render).cards k =
      if k = render.1 ∧ p.cards k = none then some render.2 else p.cards k := by
  unfold effect
  cases hcard : p.cards render.1 with
  | some s =>
      dsimp only
      rw [if_neg]
      rintro ⟨rfl, hnone⟩
      exact Option.some_ne_none s (hcard.symm.trans hnone)
  | none =>
      by_cases hk : k = render.1
      · subst hk
        simp [hcard]
      · simp [hk]

theorem claims_effect (render : K × S) :
    (p.effect render).claims s =
      (p.claims s).or
        (if s = render.2 ∧ p.cards render.1 = none then some render.1 else none) := by
  unfold effect
  cases hcard : p.cards render.1 with
  | some s' => simp
  | none =>
      show (p.claimWatchMount render.2 render.1).claims s = _
      unfold claimWatchMount
      by_cases hs : s = render.2
      · subst hs
        cases hclaim : p.claims render.2 with
        | none => simp
        | some k => simp [hclaim]
      · cases p.claims render.2 with
        | none => simp [hs]
        | some k => simp [hs]

theorem held_effect (h : p.Held) (render : K × S) : (p.effect render).Held := by
  intro s k hclaim
  rw [claims_effect] at hclaim
  rw [cards_effect]
  rcases Option.or_eq_some_iff.mp hclaim with hheld | ⟨-, hnew⟩
  · have hcard := h s k hheld
    rw [if_neg (by simp [hcard]), hcard]
  · obtain ⟨⟨rfl, hnone⟩, hk⟩ := Option.ite_none_right_eq_some.mp hnew
    cases hk
    rw [if_pos ⟨rfl, hnone⟩]

theorem held_effects (h : p.Held) (renders : List (K × S)) :
    (renders.foldl effect p).Held := by
  induction renders generalizing p with
  | nil => exact h
  | cons render renders ih => exact ih (held_effect h render)

theorem claims_effects {renders : List (K × S)} (hdistinct : (renders.map Prod.fst).Nodup) :
    (renders.foldl effect p).claims s ≠ none ↔
      p.claims s ≠ none ∨ ∃ render ∈ renders, render.2 = s ∧ p.cards render.1 = none := by
  induction renders generalizing p with
  | nil => simp
  | cons render renders ih =>
      rw [List.map_cons, List.nodup_cons] at hdistinct
      obtain ⟨hnew, hdistinct⟩ := hdistinct
      have hcards : ∀ other ∈ renders, (p.effect render).cards other.1 = p.cards other.1 := by
        intro other hother
        rw [cards_effect, if_neg]
        rintro ⟨hsame, -⟩
        exact hnew (hsame ▸ List.mem_map_of_mem hother)
      rw [List.foldl_cons, ih hdistinct, claims_effect, Ne, Option.or_eq_none_iff, not_and_or,
        ite_eq_right_iff, Classical.not_imp]
      have hlater : (∃ other ∈ renders, other.2 = s ∧ (p.effect render).cards other.1 = none) ↔
          ∃ other ∈ renders, other.2 = s ∧ p.cards other.1 = none :=
        exists_congr fun other => and_congr_right fun hother => by rw [hcards other hother]
      rw [hlater, List.exists_mem_cons_iff, or_assoc]
      refine or_congr_right (or_congr_left ?_)
      simp [eq_comm]

theorem cards_effects {renders : List (K × S)} (hdistinct : (renders.map Prod.fst).Nodup) :
    (renders.foldl effect p).cards k = some s ↔
      p.cards k = some s ∨ p.cards k = none ∧ (k, s) ∈ renders := by
  induction renders generalizing p with
  | nil => simp
  | cons render renders ih =>
      rw [List.map_cons, List.nodup_cons] at hdistinct
      obtain ⟨hnew, hdistinct⟩ := hdistinct
      rw [List.foldl_cons, ih hdistinct, cards_effect]
      obtain ⟨k', s'⟩ := render
      by_cases hk : k = k'
      · subst hk
        have hnot : (k, s) ∉ renders := fun hmem =>
          hnew (List.mem_map.mpr ⟨_, hmem, rfl⟩)
        cases hcard : p.cards k with
        | none => simp [hnot, eq_comm]
        | some s'' => simp
      · simp [hk]

/-! ## Commits -/

theorem held_commit (h : p.Held) (commit : Commit S K) : (p.commit commit).Held :=
  held_effects (held_cleanups h _) _

theorem cards_commit (commit : Commit S K) :
    (p.commit commit).cards k = some s ↔
      p.cards k = some s ∧ k ∉ p.leaving commit ∨
        (k, s) ∈ commit.renders ∧ (p.cards k = none ∨ k ∈ p.leaving commit) := by
  unfold Page.commit
  rw [cards_effects commit.distinct, cards_cleanups]
  by_cases hleaving : k ∈ p.leaving commit
  · simp [hleaving]
  · simp [hleaving, and_comm]

theorem claims_commit (h : p.Held) (commit : Commit S K) :
    (p.commit commit).claims s ≠ none ↔
      (∃ k, p.claims s = some k ∧ k ∉ p.leaving commit) ∨
        ∃ k, (k, s) ∈ commit.renders ∧ (p.cards k = none ∨ k ∈ p.leaving commit) := by
  unfold Page.commit
  rw [claims_effects commit.distinct, Option.ne_none_iff_exists']
  refine or_congr (exists_congr fun k => claims_cleanups h _) ?_
  constructor
  · rintro ⟨⟨k, _⟩, hrender, rfl, hnone⟩
    rw [cards_cleanups, ite_eq_left_iff] at hnone
    refine ⟨k, hrender, ?_⟩
    by_cases hleaving : k ∈ p.leaving commit
    · exact .inr hleaving
    · exact .inl (hnone hleaving)
  · rintro ⟨k, hrender, hnew⟩
    refine ⟨(k, s), hrender, rfl, ?_⟩
    rw [cards_cleanups, ite_eq_left_iff]
    exact hnew.resolve_right

/-- When the card that holds the claim of a session leaves while another one stays, a third one
turns to the session at the same time. -/
def HandsOver (p : Page S K) (commit : Commit S K) : Prop :=
  ∀ s k k', p.claims s = some k → k ∈ p.leaving commit →
    p.cards k' = some s → k' ∉ p.leaving commit →
      ∃ k'', (k'', s) ∈ commit.renders ∧ (p.cards k'' = none ∨ k'' ∈ p.leaving commit)

theorem playsOnce_commit_iff (h : p.Held) (honce : p.PlaysOnce) (commit : Commit S K) :
    (p.commit commit).PlaysOnce ↔ p.HandsOver commit := by
  rw [playsOnce_iff (held_commit h commit)]
  constructor
  · intro hclaimed s k k' hclaim hleaving hcard hstays
    have hthere := hclaimed s k' ((cards_commit commit).mpr (.inl ⟨hcard, hstays⟩))
    rcases (claims_commit h commit).mp hthere with ⟨k'', hclaim', hkept⟩ | hnew
    · cases hclaim.symm.trans hclaim'
      exact absurd hleaving hkept
    · exact hnew
  · intro hhands s k' hthere
    rw [claims_commit h commit]
    rcases (cards_commit commit).mp hthere with ⟨hcard, hstays⟩ | hnew
    · obtain ⟨k, hclaim⟩ :=
        Option.ne_none_iff_exists'.mp ((playsOnce_iff h).mp honce s k' hcard)
      by_cases hleaving : k ∈ p.leaving commit
      · exact .inr (hhands s k k' hclaim hleaving hcard hstays)
      · exact .inl ⟨k, hclaim, hleaving⟩
    · exact .inr ⟨k', hnew⟩

end Page

section

variable [DecidableEq S] [DecidableEq K]

/-- In every run of commits each session that is shown is played once, exactly when the card that
plays it never leaves the others behind. -/
theorem mounts_run_iff (commits : List (Commit S K)) :
    Along Page.commit (fun p commit => (p.commit commit).PlaysOnce) {} commits ↔
      Along Page.commit Page.HandsOver {} commits := by
  have hheld : Page.Held ({} : Page S K) := fun s k hclaim => absurd hclaim (by simp)
  have honce : Page.PlaysOnce ({} : Page S K) :=
    (Page.playsOnce_iff hheld).mpr fun s k hcard => absurd hcard (by simp)
  exact along_iff_of_invariant
    (fun p commit (h : p.Held ∧ p.PlaysOnce) => Page.playsOnce_commit_iff h.1 h.2 commit)
    (fun p commit h hhands => ⟨Page.held_commit h.1 commit,
      (Page.playsOnce_commit_iff h.1 h.2 commit).mpr hhands⟩) ⟨hheld, honce⟩

end

/-- Two cards show a session, and the one that plays it is unmounted. -/
theorem sibling_takes_no_claim :
    ¬∀ commits : List (Commit ℕ ℕ),
      Along Page.commit (fun p commit => (p.commit commit).PlaysOnce) {} commits := by
  intro hall
  obtain ⟨-, -, honce, -⟩ := hall
    [⟨[], [(1, 0)], by decide⟩, ⟨[], [(2, 0)], by decide⟩, ⟨[1], [], by decide⟩]
  obtain ⟨k, hplays⟩ := honce.played 0 ⟨2, by decide⟩
  exact Option.some_ne_none k (Page.plays_iff.mp hplays).2.symm

end FancyMumble.Interface.WatchMounts
