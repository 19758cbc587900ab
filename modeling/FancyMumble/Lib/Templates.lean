import FancyMumble.Lib.Occurrences

/-!
# Templates

A template has holes that are marked by texts. Filling the holes one after the other by replacing
their texts is filling them at once, as long as what is filled in never becomes part of such a
text.
-/

namespace FancyMumble.Lib.Templates

open Lib.Occurrences

variable {α κ : Type*}

/-- The texts that mark holes: each has an opening element that it has nowhere else, and none
begins with another. -/
structure Marks (α κ : Type*) where
  keys : List κ
  mem_keys : ∀ k, k ∈ keys
  text : κ → List α
  opening : α
  inner : κ → List α
  text_eq : ∀ k, text k = opening :: inner k
  opening_notMem : ∀ k, opening ∉ inner k
  eq_of_prefix : ∀ k k', text k <+: text k' → k = k'

/-- A part of a template: an element of its own, a hole, or what a hole was filled with. -/
inductive Token (α κ : Type*) where
  | element (c : α)
  | hole (k : κ)
  | filled (text : List α)
deriving DecidableEq

variable (marks : Marks α κ)

def Token.written : Token α κ → List α
  | .element c => [c]
  | .hole k => marks.text k
  | .filled text => text

def flatten (tokens : List (Token α κ)) : List α := tokens.flatMap (Token.written marks)

theorem flatten_cons (token : Token α κ) (tokens : List (Token α κ)) :
    flatten marks (token :: tokens) = token.written marks ++ flatten marks tokens := rfl

def Token.fill [DecidableEq κ] (k : κ) (value : List α) : Token α κ → Token α κ
  | .hole k' => if k' = k then .filled value else .hole k'
  | token => token

def fill [DecidableEq κ] (k : κ) (value : List α) (tokens : List (Token α κ)) :
    List (Token α κ) :=
  tokens.map (Token.fill k value)

def Token.expand (value : κ → List α) : Token α κ → List α
  | .element c => [c]
  | .hole k => value k
  | .filled text => text

def expand (value : κ → List α) (tokens : List (Token α κ)) : List α :=
  tokens.flatMap (Token.expand value)

def Exact (k : κ) : List (Token α κ) → Prop
  | [] => True
  | token :: tokens =>
      (token ≠ .hole k → ∀ i < (token.written marks).length,
        ¬marks.text k <+: (token.written marks ++ flatten marks tokens).drop i) ∧
      Exact k tokens

instance decidableExact [DecidableEq α] [DecidableEq κ] (k : κ) :
    ∀ tokens : List (Token α κ), Decidable (Exact marks k tokens)
  | [] => inferInstanceAs (Decidable True)
  | token :: tokens =>
      have := decidableExact k tokens
      inferInstanceAs (Decidable ((token ≠ .hole k → ∀ i < (token.written marks).length,
        ¬marks.text k <+: (token.written marks ++ flatten marks tokens).drop i) ∧
        Exact marks k tokens))

variable {marks}

theorem text_ne_nil (k : κ) : marks.text k ≠ [] := by
  rw [marks.text_eq]
  exact List.cons_ne_nil _ _

theorem not_prefix_drop_text {k k' : κ} (hne : k ≠ k') {rest : List α} {i : ℕ}
    (hi : i < (marks.text k').length) : ¬marks.text k <+: (marks.text k' ++ rest).drop i := by
  intro hbegins
  cases i with
  | zero =>
      rcases List.prefix_or_prefix_of_prefix hbegins (List.prefix_append _ rest) with h | h
      · exact hne (marks.eq_of_prefix k k' h)
      · exact hne (marks.eq_of_prefix k' k h).symm
  | succ i =>
      rw [marks.text_eq k', List.length_cons] at hi
      have hinner : i < (marks.inner k').length := Nat.lt_of_succ_lt_succ hi
      rw [marks.text_eq, marks.text_eq, List.cons_append, List.drop_succ_cons,
        List.drop_append_of_le_length hinner.le, List.drop_eq_getElem_cons hinner,
        List.cons_append, List.cons_prefix_cons] at hbegins
      refine marks.opening_notMem k' ?_
      rw [hbegins.1]
      exact List.getElem_mem hinner

theorem flatten_eq_expand (value : κ → List α) {tokens : List (Token α κ)}
    (h : ∀ k, .hole k ∉ tokens) : flatten marks tokens = expand value tokens := by
  unfold flatten expand
  refine List.flatMap_congr fun token htoken => ?_
  cases token with
  | element c => rfl
  | hole k => exact absurd htoken (h k)
  | filled text => rfl

/-! ## Filling a hole -/

section Filling

variable [DecidableEq κ]

theorem fill_eq_or (k : κ) (value : List α) (token : Token α κ) :
    token.fill k value = token ∨ token = .hole k ∧ token.fill k value = .filled value := by
  cases token with
  | element c => exact .inl rfl
  | filled text => exact .inl rfl
  | hole k' =>
      by_cases hk : k' = k
      · exact .inr ⟨by rw [hk], if_pos hk⟩
      · exact .inl (if_neg hk)

structure Foreign (marks : Marks α κ) (k : κ) (value : List α) : Prop where
  ne_nil : value ≠ []
  notMem : ∀ c ∈ value, c ∉ marks.text k

theorem prefix_of_prefix_fill {k k' : κ} {value : List α}
    (hvalue : Foreign marks k value) {front : List α} {tokens : List (Token α κ)}
    (h : marks.text k <+: front ++ flatten marks (fill k' value tokens)) :
    marks.text k <+: front ++ flatten marks tokens := by
  induction tokens generalizing front with
  | nil => exact h
  | cons token tokens ih =>
      change marks.text k <+:
        front ++ ((token.fill k' value).written marks ++ flatten marks (fill k' value tokens)) at h
      rcases fill_eq_or k' value token with hsame | ⟨rfl, hfilled⟩
      · rw [hsame, ← List.append_assoc] at h
        rw [flatten_cons, ← List.append_assoc]
        exact ih h
      · rw [hfilled] at h
        cases value with
        | nil => exact absurd rfl hvalue.ne_nil
        | cons c value =>
            have hc := hvalue.notMem c List.mem_cons_self
            have hfront := (prefix_append_cons_iff hc).mp h
            exact hfront.trans (List.prefix_append _ _)

theorem exact_fill {k k' : κ} {value : List α} {tokens : List (Token α κ)}
    (hvalue : Foreign marks k value) (h : Exact marks k tokens) :
    Exact marks k (fill k' value tokens) := by
  induction tokens with
  | nil => trivial
  | cons token tokens ih =>
      refine ⟨fun hhole i hi hbegins => ?_, ih h.2⟩
      rcases fill_eq_or k' value token with hsame | ⟨rfl, hfilled⟩
      · rw [hsame] at hhole hi hbegins
        rw [List.drop_append_of_le_length hi.le] at hbegins
        refine h.1 hhole i hi ?_
        rw [List.drop_append_of_le_length hi.le]
        exact prefix_of_prefix_fill hvalue hbegins
      · rw [hfilled] at hi hbegins
        rw [Token.written] at hi hbegins
        rw [marks.text_eq, List.drop_append_of_le_length hi.le, List.drop_eq_getElem_cons hi,
          List.cons_append, List.cons_prefix_cons] at hbegins
        refine hvalue.notMem _ (List.getElem_mem hi) ?_
        rw [← hbegins.1, marks.text_eq]
        exact List.mem_cons_self

theorem fill_comm {k k' : κ} (hne : k ≠ k') (value value' : List α)
    (tokens : List (Token α κ)) :
    fill k value (fill k' value' tokens) = fill k' value' (fill k value tokens) := by
  unfold fill
  rw [List.map_map, List.map_map]
  refine List.map_congr_left fun token _ => ?_
  cases token with
  | element c => rfl
  | filled text => rfl
  | hole k'' =>
      dsimp only [Function.comp, Token.fill]
      by_cases hk : k'' = k
      · subst hk
        rw [if_neg hne, if_pos rfl]
        exact if_pos rfl
      · by_cases hk' : k'' = k'
        · subst hk'
          rw [if_pos rfl, if_neg hk]
          exact (if_pos rfl).symm
        · rw [if_neg hk', if_neg hk]
          dsimp only
          rw [if_neg hk, if_neg hk']

/-! ## Filling all holes -/

theorem expand_fill (value : κ → List α) (k : κ) (tokens : List (Token α κ)) :
    expand value (fill k (value k) tokens) = expand value tokens := by
  unfold expand fill
  rw [List.flatMap_map]
  refine List.flatMap_congr fun token _ => ?_
  rcases fill_eq_or k (value k) token with hsame | ⟨rfl, hfilled⟩
  · rw [hsame]
  · rw [hfilled]
    rfl

theorem hole_mem_fill {k k' : κ} {value : List α} {tokens : List (Token α κ)} :
    .hole k ∈ fill k' value tokens ↔ k ≠ k' ∧ .hole k ∈ tokens := by
  unfold fill
  rw [List.mem_map]
  constructor
  · rintro ⟨token, htoken, hfill⟩
    rcases fill_eq_or k' value token with hsame | ⟨rfl, hfilled⟩
    · rw [hsame] at hfill
      subst hfill
      refine ⟨?_, htoken⟩
      rintro rfl
      rw [Token.fill, if_pos rfl] at hsame
      cases hsame
    · rw [hfilled] at hfill
      cases hfill
  · rintro ⟨hne, htoken⟩
    exact ⟨.hole k, htoken, if_neg hne⟩

end Filling

/-! ## Reading a template -/

section Reading

variable [DecidableEq α]

variable (marks) in
/-- The parts of a template, behind a number of elements that belong to a hole already read. -/
def scanBehind : ℕ → List α → List (Token α κ)
  | _, [] => []
  | skip + 1, _ :: text => scanBehind skip text
  | 0, c :: text =>
      match marks.keys.find? fun k => marks.text k <+: c :: text with
      | some k => .hole k :: scanBehind ((marks.text k).length - 1) text
      | none => .element c :: scanBehind 0 text

variable (marks) in
def scan (text : List α) : List (Token α κ) := scanBehind marks 0 text

theorem flatten_scanBehind (skip : ℕ) (text : List α) :
    flatten marks (scanBehind marks skip text) = text.drop skip := by
  induction text generalizing skip with
  | nil =>
      rw [List.drop_nil]
      cases skip <;> rfl
  | cons c text ih =>
      cases skip with
      | succ skip => rw [scanBehind, List.drop_succ_cons, ih]
      | zero =>
          rw [scanBehind]
          cases hfind : marks.keys.find? fun k => marks.text k <+: c :: text with
          | none =>
              dsimp only
              rw [flatten_cons, ih]
              rfl
          | some k =>
              have hhere : marks.text k <+: c :: text := by simpa using List.find?_some hfind
              obtain ⟨rest, hrest⟩ := hhere
              rw [marks.text_eq, List.cons_append, List.cons.injEq] at hrest
              obtain ⟨rfl, rfl⟩ := hrest
              dsimp only
              rw [flatten_cons, ih, List.drop_zero, Token.written, marks.text_eq,
                List.length_cons, Nat.add_sub_cancel, List.drop_left, List.cons_append]

theorem flatten_scan (text : List α) : flatten marks (scan marks text) = text :=
  flatten_scanBehind 0 text

theorem exact_scanBehind (k : κ) (skip : ℕ) (text : List α) :
    Exact marks k (scanBehind marks skip text) := by
  induction text generalizing skip with
  | nil => cases skip <;> trivial
  | cons c text ih =>
      cases skip with
      | succ skip => exact ih skip
      | zero =>
          rw [scanBehind]
          cases hfind : marks.keys.find? fun k => marks.text k <+: c :: text with
          | none =>
              refine ⟨fun _ i hi => ?_, ih 0⟩
              obtain rfl : i = 0 := Nat.lt_one_iff.mp hi
              have hnone := List.find?_eq_none.mp hfind k (marks.mem_keys k)
              rw [flatten_scanBehind]
              change ¬marks.text k <+: c :: text
              simpa using hnone
          | some k' =>
              refine ⟨fun hhole i hi => ?_, ih _⟩
              exact not_prefix_drop_text (fun hk => hhole (by rw [hk])) hi

theorem exact_scan (k : κ) (text : List α) : Exact marks k (scan marks text) :=
  exact_scanBehind k 0 text

end Reading

/-! ## Replacing -/

theorem replaceAll_flatten [DecidableEq α] [DecidableEq κ] {k : κ}
    {tokens : List (Token α κ)} (h : Exact marks k tokens) (value : List α) :
    replaceAll (marks.text k) value (flatten marks tokens) =
      flatten marks (fill k value tokens) := by
  induction tokens with
  | nil => rfl
  | cons token tokens ih =>
      have hrest : flatten marks (fill k value (token :: tokens)) =
          (token.fill k value).written marks ++ flatten marks (fill k value tokens) := rfl
      rw [flatten_cons, hrest, ← ih h.2]
      by_cases hhole : token = .hole k
      · subst hhole
        rw [Token.fill, if_pos rfl]
        exact replaceAll_pattern_append (text_ne_nil k) _
      · have hsame : token.fill k value = token := by
          cases token with
          | element c => rfl
          | hole k' =>
              have hne : k' ≠ k := fun hk => hhole (by rw [hk])
              exact if_neg hne
          | filled text => rfl
        rw [hsame]
        exact replaceAll_append_of_forall (h.1 hhole)

end FancyMumble.Lib.Templates
