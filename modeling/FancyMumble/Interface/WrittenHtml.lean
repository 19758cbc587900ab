import FancyMumble.Interface.MarkdownHtml
import FancyMumble.Lib.Decimal

/-!
# What the converter writes

A text in which every angle bracket belongs to a tag and every ampersand to a reference shows a text
of its own. Each step of the converter leaves such a text behind.
-/

namespace FancyMumble.Interface.WrittenHtml

open Interface.MarkdownHtml Interface.MarkdownUrls
open Decimal Lib.Json Lib.Occurrences Lib.Scanning

def references : List (Text × UInt16) :=
  [(ascii "&amp;", unit '&'), (ascii "&lt;", unit '<'), (ascii "&gt;", unit '>')]

def isBare (c : UInt16) : Bool := c ≠ unit '&' && c ≠ unit '<' && c ≠ unit '>'

def TagShape (t : Text) : Prop :=
  ∃ inner, t = unit '<' :: (inner ++ [unit '>']) ∧ inner ≠ [] ∧ unit '<' ∉ inner ∧ unit '>' ∉ inner

/-- A text of characters, references and tags, and what it shows, a space for each tag. -/
inductive Shows (IsTag : Text → Prop) : Text → Text → Prop
  | nil : Shows IsTag [] []
  | bare {c : UInt16} {text shown : Text} (hc : isBare c = true) (h : Shows IsTag text shown) :
      Shows IsTag (c :: text) (c :: shown)
  | reference {e : Text × UInt16} {text shown : Text} (he : e ∈ references)
      (h : Shows IsTag text shown) : Shows IsTag (e.1 ++ text) (e.2 :: shown)
  | tag {t text shown : Text} (ht : IsTag t) (hshape : TagShape t) (h : Shows IsTag text shown) :
      Shows IsTag (t ++ text) (unit ' ' :: shown)

section Shows

variable {IsTag IsTag' : Text → Prop} {text shown front back : Text} {c : UInt16}

theorem Shows.mono (h : Shows IsTag text shown) (himp : ∀ t, IsTag t → IsTag' t) :
    Shows IsTag' text shown := by
  induction h with
  | nil => exact .nil
  | bare hc _ ih => exact .bare hc ih
  | reference he _ ih => exact .reference he ih
  | tag ht hshape _ ih => exact .tag (himp _ ht) hshape ih

theorem Shows.append {shown' : Text} (h : Shows IsTag front shown)
    (h' : Shows IsTag back shown') : Shows IsTag (front ++ back) (shown ++ shown') := by
  induction h with
  | nil => exact h'
  | bare hc _ ih => exact .bare hc ih
  | reference he _ ih =>
      rw [List.append_assoc]
      exact .reference he ih
  | tag ht hshape _ ih =>
      rw [List.append_assoc]
      exact .tag ht hshape ih

theorem Shows.of_tag {t : Text} (ht : IsTag t) (hshape : TagShape t) :
    Shows IsTag t [unit ' '] := by
  have h := Shows.tag ht hshape Shows.nil
  rwa [List.append_nil] at h

theorem Shows.of_bare (h : ∀ c ∈ text, isBare c = true) : Shows IsTag text text := by
  induction text with
  | nil => exact .nil
  | cons c text ih =>
      rw [List.forall_mem_cons] at h
      exact .bare h.1 (ih h.2)

theorem Shows.escapeHtml (raw : Text) : Shows IsTag (escapeHtml raw) raw := by
  induction raw with
  | nil => exact .nil
  | cons c raw ih =>
      have hcons : MarkdownHtml.escapeHtml (c :: raw) =
          escapeChar c ++ MarkdownHtml.escapeHtml raw := List.flatMap_cons
      rw [hcons]
      unfold escapeChar
      split_ifs with hamp hlt hgt
      · subst hamp
        exact .reference (e := (ascii "&amp;", unit '&')) (by decide) ih
      · subst hlt
        exact .reference (e := (ascii "&lt;", unit '<')) (by decide) ih
      · subst hgt
        exact .reference (e := (ascii "&gt;", unit '>')) (by decide) ih
      · refine .bare ?_ ih
        unfold isBare
        simp only [Bool.and_eq_true, decide_eq_true_eq]
        exact ⟨⟨hamp, hlt⟩, hgt⟩

structure Apart (IsTag : Text → Prop) (c : UInt16) : Prop where
  reference : c ∉ ascii "&ampltg;<>"
  tag : ∀ t, IsTag t → c ∉ t

theorem Apart.notMem_reference (hc : Apart IsTag c) {e : Text × UInt16} (he : e ∈ references) :
    c ∉ e.1 := by
  intro hmem
  have hall : references.all (fun e => e.1.all (fun c => c ∈ ascii "&ampltg;<>")) = true := by
    decide
  have hchar := List.all_eq_true.mp (List.all_eq_true.mp hall e he) c hmem
  exact hc.reference (of_decide_eq_true hchar)

theorem Shows.split (hc : Apart IsTag c) (h : Shows IsTag (front ++ c :: back) shown) :
    ∃ x y, Shows IsTag front x ∧ Shows IsTag back y ∧ shown = x ++ c :: y := by
  generalize htext : front ++ c :: back = text at h
  induction h generalizing front with
  | nil => exact absurd htext (by simp)
  | @bare c' text shown hbare h ih =>
      cases front with
      | nil =>
          obtain ⟨rfl, rfl⟩ := List.cons_eq_cons.mp htext
          exact ⟨[], shown, .nil, h, rfl⟩
      | cons c'' front =>
          obtain ⟨rfl, hrest⟩ := List.cons_eq_cons.mp htext
          obtain ⟨x, y, hx, hy, rfl⟩ := ih hrest
          exact ⟨c'' :: x, y, .bare hbare hx, hy, rfl⟩
  | @reference e text shown he h ih =>
      obtain ⟨rest, rfl, hrest⟩ := exists_of_notMem (hc.notMem_reference he) htext
      obtain ⟨x, y, hx, hy, rfl⟩ := ih hrest
      exact ⟨e.2 :: x, y, .reference he hx, hy, rfl⟩
  | @tag t text shown ht hshape h ih =>
      obtain ⟨rest, rfl, hrest⟩ := exists_of_notMem (hc.tag t ht) htext
      obtain ⟨x, y, hx, hy, rfl⟩ := ih hrest
      exact ⟨unit ' ' :: x, y, .tag ht hshape hx, hy, rfl⟩

theorem length_pos_of_reference {e : Text × UInt16} (he : e ∈ references) : 0 < e.1.length := by
  have hall : references.all (fun e => 0 < e.1.length) = true := by decide
  exact of_decide_eq_true (List.all_eq_true.mp hall e he)

theorem TagShape.length_pos {t : Text} (h : TagShape t) : 0 < t.length := by
  obtain ⟨inner, rfl, -⟩ := h
  exact Nat.succ_pos _

theorem Shows.drop_head (hc : Apart IsTag c) (h : Shows IsTag (c :: back) shown) :
    ∃ y, Shows IsTag back y := by
  have hsplit : ∃ x y, Shows IsTag [] x ∧ Shows IsTag back y ∧ shown = x ++ c :: y := h.split hc
  obtain ⟨-, y, -, hy, -⟩ := hsplit
  exact ⟨y, hy⟩

theorem Shows.drop_mark {mark : Text} (hmark : ∀ c ∈ mark, Apart IsTag c)
    (h : Shows IsTag (mark ++ back) shown) : ∃ y, Shows IsTag back y := by
  induction mark generalizing shown with
  | nil => exact ⟨shown, h⟩
  | cons c mark ih =>
      rw [List.forall_mem_cons] at hmark
      obtain ⟨y, hy⟩ := h.drop_head hmark.1
      exact ih hmark.2 hy

theorem Shows.around {mark : Text} (hne : mark ≠ []) (hmark : ∀ c ∈ mark, Apart IsTag c)
    (h : Shows IsTag (front ++ (mark ++ back)) shown) :
    (∃ x, Shows IsTag front x) ∧ ∃ y, Shows IsTag back y := by
  cases mark with
  | nil => exact absurd rfl hne
  | cons c mark =>
      rw [List.forall_mem_cons] at hmark
      obtain ⟨x, y, hx, hy, -⟩ := h.split hmark.1
      exact ⟨⟨x, hx⟩, hy.drop_mark hmark.2⟩

end Shows

/-! ## Scans of such a text -/

section Parts

variable {β : Type} {IsTag : Text → Prop} {Q : β → Prop} {rule : Rule UInt16 β}
  {text shown front back : Text}

/-- What is passed over is of characters, references and tags, and the matches are of some kind. -/
inductive Parts (IsTag : Text → Prop) (Q : β → Prop) : List (UInt16 ⊕ β) → Prop
  | nil : Parts IsTag Q []
  | bare {c : UInt16} {parts : List (UInt16 ⊕ β)} (hc : isBare c = true)
      (h : Parts IsTag Q parts) : Parts IsTag Q (.inl c :: parts)
  | reference {e : Text × UInt16} {parts : List (UInt16 ⊕ β)} (he : e ∈ references)
      (h : Parts IsTag Q parts) : Parts IsTag Q (e.1.map .inl ++ parts)
  | tag {t : Text} {parts : List (UInt16 ⊕ β)} (ht : IsTag t) (hshape : TagShape t)
      (h : Parts IsTag Q parts) : Parts IsTag Q (t.map .inl ++ parts)
  | found {m : β} {parts : List (UInt16 ⊕ β)} (hm : Q m) (h : Parts IsTag Q parts) :
      Parts IsTag Q (.inr m :: parts)

/-- A rule that matches only what can be taken out of such a text. -/
structure Fits (IsTag : Text → Prop) (rule : Rule UInt16 β) (Q : β → Prop) : Prop where
  apart : ∀ before c text m n, rule before (c :: text) = some (m, n) → Apart IsTag c
  split : ∀ before text shown m n, Shows IsTag text shown → rule before text = some (m, n) →
    ∃ front rest, text = front ++ rest ∧ front.length = n ∧ front ≠ [] ∧ Q m ∧
      ∃ y, Shows IsTag rest y

theorem Fits.scan_append (hfits : Fits IsTag rule Q) (hfront : ∀ c ∈ front, ¬ Apart IsTag c)
    (before : Option UInt16) :
    ∃ between, scan rule before (front ++ back) = front.map .inl ++ scan rule between back := by
  refine scan_append_of_none ?_
  intro before c rest hsuffix
  cases hrule : rule before (c :: (rest ++ back)) with
  | none => rfl
  | some found =>
      have hapart := hfits.apart before c _ found.1 found.2 hrule
      exact absurd hapart (hfront c (hsuffix.subset List.mem_cons_self))

theorem Shows.parts (hfits : Fits IsTag rule Q) (h : Shows IsTag text shown)
    (before : Option UInt16) : Parts IsTag Q (scan rule before text) := by
  induction hn : text.length using Nat.strong_induction_on generalizing text shown before with
  | _ n ih =>
      -- a match is taken out whatever begins the text
      cases hrule : rule before text with
      | some found =>
          obtain ⟨m, k⟩ := found
          obtain ⟨front, rest, rfl, rfl, hne, hm, y, hy⟩ :=
            hfits.split before text shown m k h hrule
          have hshort : rest.length < n := by
            rw [← hn, List.length_append]
            exact Nat.lt_add_of_pos_left (List.length_pos_iff.mpr hne)
          rw [scan_append_of_match hrule hne]
          exact .found hm (ih rest.length hshort hy front.getLast? rfl)
      | none =>
          cases h with
          | nil =>
              rw [scan_nil]
              exact .nil
          | @bare c text shown hc h =>
              rw [scan_cons_of_none hrule]
              exact .bare hc (ih text.length (hn ▸ Nat.lt_succ_self _) h (some c) rfl)
          | @reference e text shown he h =>
              have hshort : text.length < n := by
                rw [← hn, List.length_append]
                exact Nat.lt_add_of_pos_left (length_pos_of_reference he)
              obtain ⟨between, hscan⟩ := hfits.scan_append
                (fun c hc hapart => hapart.notMem_reference he hc) before
              rw [hscan]
              exact .reference he (ih text.length hshort h between rfl)
          | @tag t text shown ht hshape h =>
              have hshort : text.length < n := by
                rw [← hn, List.length_append]
                exact Nat.lt_add_of_pos_left hshape.length_pos
              obtain ⟨between, hscan⟩ := hfits.scan_append
                (fun c hc hapart => hapart.tag t ht hc) before
              rw [hscan]
              exact .tag ht hshape (ih text.length hshort h between rfl)

theorem Parts.of_mem {parts : List (UInt16 ⊕ β)} (h : Parts IsTag Q parts) {m : β}
    (hm : .inr m ∈ parts) : Q m := by
  have hinl : ∀ (front : Text), .inr m ∉ front.map (Sum.inl : UInt16 → UInt16 ⊕ β) := by
    intro front hmem
    obtain ⟨c, -, hc⟩ := List.mem_map.mp hmem
    cases hc
  induction h with
  | nil => cases hm
  | bare _ _ ih => exact ih ((List.mem_cons.mp hm).resolve_left Sum.inr_ne_inl)
  | reference _ _ ih => exact ih ((List.mem_append.mp hm).resolve_left (hinl _))
  | tag _ _ _ ih => exact ih ((List.mem_append.mp hm).resolve_left (hinl _))
  | found hfound _ ih =>
      rcases List.mem_cons.mp hm with heq | hm
      · cases heq
        exact hfound
      · exact ih hm

theorem Parts.fill {parts : List (UInt16 ⊕ β)} (h : Parts IsTag Q parts) {out : ℕ → β → Text}
    (hout : ∀ index m, Q m → ∃ x, Shows IsTag (out index m) x) (index : ℕ) :
    ∃ w, Shows IsTag (fill out index parts) w := by
  induction h generalizing index with
  | nil => exact ⟨[], .nil⟩
  | bare hc _ ih =>
      obtain ⟨w, hw⟩ := ih index
      exact ⟨_, .bare hc hw⟩
  | reference he _ ih =>
      obtain ⟨w, hw⟩ := ih index
      rw [fill_map_inl]
      exact ⟨_, .reference he hw⟩
  | tag ht hshape _ ih =>
      obtain ⟨w, hw⟩ := ih index
      rw [fill_map_inl]
      exact ⟨_, .tag ht hshape hw⟩
  | found hm _ ih =>
      obtain ⟨w, hw⟩ := ih (index + 1)
      obtain ⟨x, hx⟩ := hout index _ hm
      exact ⟨_, hx.append hw⟩

theorem Parts.flatMap {parts : List (UInt16 ⊕ β)} (h : Parts IsTag Q parts) {out : β → Text}
    (hout : ∀ m, Q m → ∃ x, Shows IsTag (out m) x) :
    ∃ w, Shows IsTag (parts.flatMap (Sum.elim (fun c => [c]) out)) w := by
  rw [← fill_flatMap out 0]
  exact h.fill (fun _ m hm => hout m hm) 0

end Parts

/-! ## Formats -/

def inlineTags : List Text :=
  ["<code>", "</code>", "<b>", "</b>", "<i>", "</i>", "<u>", "</u>", "<s>", "</s>",
    "<span class=\"spoiler\">", "</span>"].map ascii

def IsInline (t : Text) : Prop := t ∈ inlineTags

theorem inline_of {t : Text} (h : decide (t ∈ inlineTags) = true) : IsInline t := by
  unfold IsInline
  exact of_decide_eq_true h

theorem inline_shape {t : Text} (ht : IsInline t) : TagShape t := by
  have hall : inlineTags.all (fun t =>
      t = unit '<' :: (t.tail.dropLast ++ [unit '>']) ∧ t.tail.dropLast ≠ [] ∧
        unit '<' ∉ t.tail.dropLast ∧ unit '>' ∉ t.tail.dropLast) = true := by decide
  exact ⟨t.tail.dropLast, of_decide_eq_true (List.all_eq_true.mp hall t ht)⟩

def marks : Text := ascii "`*_~|"

theorem inline_apart {c : UInt16} (hc : c ∈ marks) : Apart IsInline c := by
  have hall : marks.all (fun c =>
      c ∉ ascii "&ampltg;<>" ∧ inlineTags.all (fun t => c ∉ t) = true) = true := by decide
  have hmark := of_decide_eq_true (List.all_eq_true.mp hall c hc)
  exact ⟨hmark.1, fun t ht => of_decide_eq_true (List.all_eq_true.mp hmark.2 t ht)⟩

structure IsFormat (format : Format) : Prop where
  mark_ne_nil : format.mark ≠ []
  mark_subset : format.mark ⊆ marks
  closes : ∀ last rest, format.closes last rest = true → format.mark <+: rest
  openTag : IsInline format.openTag
  closeTag : IsInline format.closeTag

theorem isFormat_plainFormat {mark openTag closeTag : Text} (hne : mark ≠ []) (hmark : mark ⊆ marks)
    (hopen : IsInline openTag) (hclose : IsInline closeTag) :
    IsFormat (plainFormat mark openTag closeTag) :=
  ⟨hne, hmark, fun _ _ h => of_decide_eq_true h, hopen, hclose⟩

theorem isFormat_italic : IsFormat italic := by
  refine ⟨by decide, by decide, ?_, inline_of (by decide), inline_of (by decide)⟩
  intro last rest h
  obtain ⟨-, hhead, -⟩ := of_decide_eq_true h
  obtain ⟨rest, rfl⟩ := List.head?_eq_some_iff.mp hhead
  exact List.prefix_append (ascii "*") rest

theorem isFormat_of_mem {format : Format}
    (h : format ∈ [bold, italic, underline, strikethrough, spoiler]) : IsFormat format := by
  simp only [List.mem_cons, List.not_mem_nil, or_false] at h
  rcases h with rfl | rfl | rfl | rfl | rfl
  case inr.inl => exact isFormat_italic
  all_goals
    exact isFormat_plainFormat (by decide) (by decide) (inline_of (by decide))
      (inline_of (by decide))

section Formats

variable {format : Format} {text shown : Text}

theorem fits_formatAt (hformat : IsFormat format) :
    Fits IsInline (formatAt format) fun inner => ∃ x, Shows IsInline inner x := by
  have hmarks : ∀ c ∈ format.mark, Apart IsInline c :=
    fun c hc => inline_apart (hformat.mark_subset hc)
  constructor
  · intro before c text inner n hsome
    obtain ⟨rest, htext, -⟩ := formatAt_eq_some hformat.closes hsome
    obtain ⟨c', mark, hmark⟩ := List.exists_cons_of_ne_nil hformat.mark_ne_nil
    rw [hmark] at htext
    obtain ⟨rfl, -⟩ := List.cons_eq_cons.mp htext
    exact hmarks c (hmark ▸ List.mem_cons_self)
  · intro before text shown inner n h hsome
    obtain ⟨rest, rfl, -, rfl⟩ := formatAt_eq_some hformat.closes hsome
    obtain ⟨y, hy⟩ := h.drop_mark hmarks
    obtain ⟨hinner, hrest⟩ := hy.around hformat.mark_ne_nil hmarks
    refine ⟨format.mark ++ (inner ++ format.mark), rest, ?_, rfl, ?_, hinner, hrest⟩
    · rw [List.append_assoc, List.append_assoc]
    · exact List.append_ne_nil_of_left_ne_nil hformat.mark_ne_nil _

theorem Shows.applyFormat (hformat : IsFormat format) (h : Shows IsInline text shown) :
    ∃ w, Shows IsInline (applyFormat format text) w := by
  refine (h.parts (fits_formatAt hformat) none).flatMap ?_
  rintro inner ⟨x, hx⟩
  exact ⟨_, ((Shows.of_tag hformat.openTag (inline_shape hformat.openTag)).append hx).append
    (Shows.of_tag hformat.closeTag (inline_shape hformat.closeTag))⟩

theorem fits_codeAt :
    Fits IsInline (fun _ => codeAt) fun inner => ∃ x, Shows IsInline inner x := by
  have hmark : Apart IsInline (unit '`') := inline_apart (by decide)
  constructor
  · intro before c text inner n hsome
    obtain ⟨rest, htext, -⟩ := codeAt_eq_some hsome
    obtain ⟨rfl, -⟩ := List.cons_eq_cons.mp htext
    exact hmark
  · intro before text shown inner n h hsome
    obtain ⟨rest, rfl, -, rfl⟩ := codeAt_eq_some hsome
    obtain ⟨y, hy⟩ := h.drop_head hmark
    obtain ⟨x, z, hx, hz, -⟩ := hy.split hmark
    refine ⟨unit '`' :: (inner ++ [unit '`']), rest, ?_, ?_, List.cons_ne_nil _ _, ⟨x, hx⟩,
      ⟨z, hz⟩⟩
    · rw [List.cons_append, List.append_assoc]
      rfl
    · rw [List.length_cons, List.length_append]
      rfl

theorem Shows.applyFormats (h : Shows IsInline text shown) :
    ∃ w, Shows IsInline (applyFormats text) w := by
  have hfold : ∀ (formats : List Format), (∀ format ∈ formats, IsFormat format) →
      ∀ text : Text, (∃ w, Shows IsInline text w) → ∃ w, Shows IsInline
        (formats.foldl (fun html format => MarkdownHtml.applyFormat format html) text) w := by
    intro formats
    induction formats with
    | nil => exact fun _ _ h => h
    | cons format formats ih =>
        intro hall text ⟨w, hw⟩
        rw [List.forall_mem_cons] at hall
        exact ih hall.2 _ (hw.applyFormat hall.1)
  refine hfold _ (fun format hformat => isFormat_of_mem hformat) _ ?_
  have hopen : IsInline (ascii "<code>") := inline_of (by decide)
  have hclose : IsInline (ascii "</code>") := inline_of (by decide)
  refine (h.parts fits_codeAt none).flatMap ?_
  rintro inner ⟨x, hx⟩
  exact ⟨_, ((Shows.of_tag hopen (inline_shape hopen)).append hx).append
    (Shows.of_tag hclose (inline_shape hclose))⟩

end Formats

/-! ## Fenced blocks -/

section Fences

variable {text shown : Text} {c : UInt16}

def IsNoTag (_ : Text) : Prop := False

theorem isBare_of_isDigit (h : isDigit c = true) : isBare c = true := by
  unfold isDigit at h
  unfold isBare
  simp only [Bool.and_eq_true, decide_eq_true_eq] at h ⊢
  refine ⟨⟨?_, ?_⟩, ?_⟩ <;> rintro rfl <;> exact absurd h (by decide)

theorem isDigit_of_mem_decimal {n : ℕ} (hc : c ∈ decimal n) : isDigit c = true := by
  obtain ⟨digit, hdigit, rfl⟩ := List.mem_map.mp hc
  have hchar := List.all_eq_true.mp (isDigit_toDigits n) digit hdigit
  simp only [Char.isDigit, Bool.and_eq_true, decide_eq_true_eq, ge_iff_le, UInt32.le_iff_toNat_le]
    at hchar
  have hval : (unit digit).toNat = digit.val.toNat := by
    refine Nat.mod_eq_of_lt ?_
    exact Nat.lt_of_le_of_lt hchar.2 (by decide)
  unfold isDigit
  simp only [Bool.and_eq_true, decide_eq_true_eq, UInt16.le_iff_toNat_le, hval]
  exact hchar

theorem Shows.placeholder {IsTag : Text → Prop} (index : ℕ) :
    Shows IsTag (placeholder index) (placeholder index) := by
  refine .of_bare ?_
  unfold MarkdownHtml.placeholder
  intro c hc
  rw [List.mem_append, List.mem_append, List.mem_singleton] at hc
  rcases hc with (hc | hc) | rfl
  · exact forall_of_all (p := fun c => isBare c = true) (by decide) c hc
  · exact isBare_of_isDigit (isDigit_of_mem_decimal hc)
  · decide

theorem noTag_apart (hc : c ∉ ascii "&ampltg;<>") : Apart IsNoTag c :=
  ⟨hc, fun _ ht => ht.elim⟩

theorem fits_fenceAt :
    Fits IsNoTag (fun _ => fenceAt) fun block =>
      (∀ c ∈ block.1, isLangChar c = true) ∧ ∃ x, Shows IsNoTag block.2 x := by
  have hmark : ∀ c ∈ ascii "```", Apart IsNoTag c := by
    intro c hc
    exact noTag_apart (forall_of_all (p := fun c => c ∉ ascii "&ampltg;<>") (by decide) c hc)
  constructor
  · rintro before c text ⟨lang, body⟩ n hsome
    obtain ⟨rest, htext, -⟩ := fenceAt_eq_some hsome
    obtain ⟨rfl, -⟩ := List.cons_eq_cons.mp htext
    exact hmark _ List.mem_cons_self
  · rintro before text shown ⟨lang, body⟩ n h hsome
    obtain ⟨rest, rfl, hlang, rfl⟩ := fenceAt_eq_some hsome
    obtain ⟨y, hy⟩ := h.drop_mark hmark
    obtain ⟨-, z, -, hz, -⟩ := hy.split (noTag_apart (by decide))
    obtain ⟨hbody, hrest⟩ := hz.around (by decide) hmark
    refine ⟨ascii "```" ++ (lang ++ unit '\n' :: (body ++ ascii "```")), rest, ?_, ?_,
      List.cons_ne_nil _ _, ⟨hlang, hbody⟩, hrest⟩
    · simp only [List.append_assoc, List.cons_append]
    · have hthree : (ascii "```").length = 3 := rfl
      simp only [List.length_append, List.length_cons, hthree]
      omega

theorem Shows.stashFences (h : Shows IsNoTag text shown) :
    ∃ w, Shows IsInline (stashFences text) w := by
  obtain ⟨w, hw⟩ := (h.parts fits_fenceAt none).fill
    (fun index _ _ => ⟨_, Shows.placeholder index⟩) 0
  exact ⟨w, hw.mono fun _ ht => ht.elim⟩

def IsOuter (t : Text) : Prop :=
  t ∈ inlineTags ∨ t ∈ ["<br>", "<pre>", "</pre>"].map ascii ∨
    ∃ lang : Text, (∀ c ∈ lang, isLangChar c = true) ∧
      t = ascii "<code class=\"language-" ++ lang ++ ascii "\">"

theorem outer_of_inline {t : Text} (ht : IsInline t) : IsOuter t := .inl ht

theorem outer_of_mem {t : Text} (ht : t ∈ ["<br>", "<pre>", "</pre>"].map ascii) :
    IsOuter t ∧ TagShape t := by
  refine ⟨.inr (.inl ht), ?_⟩
  have hall : (["<br>", "<pre>", "</pre>"].map ascii).all (fun t =>
      t = unit '<' :: (t.tail.dropLast ++ [unit '>']) ∧ t.tail.dropLast ≠ [] ∧
        unit '<' ∉ t.tail.dropLast ∧ unit '>' ∉ t.tail.dropLast) = true := by decide
  exact ⟨t.tail.dropLast, of_decide_eq_true (List.all_eq_true.mp hall t ht)⟩

theorem language_shape {lang : Text} (hlang : ∀ c ∈ lang, isLangChar c = true) :
    TagShape (ascii "<code class=\"language-" ++ lang ++ ascii "\">") := by
  refine ⟨ascii "code class=\"language-" ++ lang ++ ascii "\"", ?_, List.cons_ne_nil _ _, ?_, ?_⟩
  · rw [List.append_assoc, List.append_assoc, List.append_assoc]
    rfl
  · simp only [List.mem_append, not_or]
    refine ⟨⟨by decide, fun hmem => ?_⟩, by decide⟩
    exact absurd (hlang _ hmem) (by decide)
  · simp only [List.mem_append, not_or]
    refine ⟨⟨by decide, fun hmem => ?_⟩, by decide⟩
    exact absurd (hlang _ hmem) (by decide)

theorem Shows.trimFence (h : Shows IsNoTag text shown) :
    ∃ w, Shows IsNoTag (trimFence text) w := by
  unfold MarkdownHtml.trimFence
  split
  · next hlast =>
      obtain ⟨front, rfl⟩ := List.getLast?_eq_some_iff.mp hlast
      rw [List.dropLast_concat]
      obtain ⟨x, -, hx, -⟩ := h.split (noTag_apart (by decide))
      exact ⟨x, hx⟩
  · exact ⟨shown, h⟩

def codeTag (lang : Text) : Text :=
  if lang = [] then ascii "<code>" else ascii "<code class=\"language-" ++ lang ++ ascii "\">"

theorem fenceHtml_eq (lang body : Text) :
    fenceHtml (lang, body) = ascii "<pre>" ++ (codeTag lang ++ (trimFence body ++
      (ascii "</code>" ++ ascii "</pre>"))) := by
  unfold fenceHtml codeTag
  dsimp only
  split
  · rw [List.append_nil, List.append_assoc, List.append_assoc]
    rfl
  · simp only [List.append_assoc]
    rfl

theorem outer_codeTag {lang : Text} (hlang : ∀ c ∈ lang, isLangChar c = true) :
    IsOuter (codeTag lang) ∧ TagShape (codeTag lang) := by
  unfold codeTag
  split
  · have hplain : IsInline (ascii "<code>") := inline_of (by decide)
    exact ⟨outer_of_inline hplain, inline_shape hplain⟩
  · exact ⟨.inr (.inr ⟨lang, hlang, rfl⟩), language_shape hlang⟩

theorem Shows.fenceHtml {lang body : Text} (hlang : ∀ c ∈ lang, isLangChar c = true)
    (h : Shows IsNoTag body shown) : ∃ w, Shows IsOuter (fenceHtml (lang, body)) w := by
  obtain ⟨x, hx⟩ := h.trimFence
  have hbody : Shows IsOuter (MarkdownHtml.trimFence body) x := hx.mono fun _ ht => ht.elim
  have hclose : IsInline (ascii "</code>") := inline_of (by decide)
  obtain ⟨hpre, hpre'⟩ := outer_of_mem (t := ascii "<pre>") (by decide)
  obtain ⟨hend, hend'⟩ := outer_of_mem (t := ascii "</pre>") (by decide)
  obtain ⟨hcode, hcode'⟩ := outer_codeTag hlang
  rw [fenceHtml_eq]
  exact ⟨_, .tag hpre hpre' (.tag hcode hcode' (hbody.append
    (.tag (outer_of_inline hclose) (inline_shape hclose) (.of_tag hend hend'))))⟩

theorem shows_of_mem_fenceStash (h : Shows IsNoTag text shown) {item : Text}
    (hitem : item ∈ fenceStash text) : ∃ w, Shows IsOuter item w := by
  obtain ⟨⟨lang, body⟩, hblock, rfl⟩ := List.mem_map.mp hitem
  obtain ⟨part, hpart, hright⟩ := List.mem_filterMap.mp hblock
  obtain rfl := Sum.getRight?_eq_some_iff.mp hright
  obtain ⟨hlang, x, hx⟩ := (h.parts fits_fenceAt none).of_mem hpart
  exact hx.fenceHtml hlang

/-! ## Line breaks and placeholders -/

theorem breakLines_append (a b : Text) : breakLines (a ++ b) = breakLines a ++ breakLines b := by
  unfold breakLines
  exact List.flatMap_append

theorem breakLines_of_notMem {a : Text} (h : unit '\n' ∉ a) : breakLines a = a := by
  induction a with
  | nil => rfl
  | cons c a ih =>
      rw [List.mem_cons, not_or] at h
      have hcons : breakLines (c :: a) =
          (if c = unit '\n' then ascii "<br>" else [c]) ++ breakLines a := List.flatMap_cons
      rw [hcons, if_neg (Ne.symm h.1), ih h.2]
      rfl

theorem newline_apart : Apart IsInline (unit '\n') := by
  refine ⟨by decide, ?_⟩
  intro t ht
  exact forall_of_all (p := fun t => unit '\n' ∉ t) (by decide) t ht

theorem Shows.breakLines (h : Shows IsInline text shown) :
    ∃ w, Shows IsOuter (breakLines text) w := by
  induction h with
  | nil => exact ⟨[], .nil⟩
  | @bare c text shown hc _ ih =>
      obtain ⟨w, hw⟩ := ih
      have hcons : MarkdownHtml.breakLines (c :: text) =
          (if c = unit '\n' then ascii "<br>" else [c]) ++ MarkdownHtml.breakLines text :=
        List.flatMap_cons
      rw [hcons]
      split
      · obtain ⟨hbr, hbr'⟩ := outer_of_mem (t := ascii "<br>") (by decide)
        exact ⟨_, .tag hbr hbr' hw⟩
      · exact ⟨_, .bare hc hw⟩
  | reference he _ ih =>
      obtain ⟨w, hw⟩ := ih
      rw [breakLines_append, breakLines_of_notMem (newline_apart.notMem_reference he)]
      exact ⟨_, .reference he hw⟩
  | tag ht hshape _ ih =>
      obtain ⟨w, hw⟩ := ih
      rw [breakLines_append, breakLines_of_notMem (newline_apart.tag _ ht)]
      exact ⟨_, .tag (outer_of_inline ht) hshape hw⟩

theorem nul_apart : Apart IsOuter 0 := by
  refine ⟨by decide, ?_⟩
  rintro t (ht | ht | ⟨lang, hlang, rfl⟩)
  · exact forall_of_all (p := fun t => (0 : UInt16) ∉ t) (by decide) t ht
  · exact forall_of_all (p := fun t => (0 : UInt16) ∉ t) (by decide) t ht
  · simp only [List.mem_append, not_or]
    refine ⟨⟨by decide, fun hmem => ?_⟩, by decide⟩
    exact absurd (hlang _ hmem) (by decide)

theorem fits_placeholderAt {IsTag : Text → Prop} (hnul : Apart IsTag 0) :
    Fits IsTag (fun _ => placeholderAt) fun _ => True := by
  constructor
  · intro before c text index n hsome
    obtain ⟨digits, rest, htext, -⟩ := placeholderAt_eq_some hsome
    obtain ⟨rfl, -⟩ := List.cons_eq_cons.mp htext
    exact hnul
  · intro before text shown index n h hsome
    obtain ⟨digits, rest, rfl, -, -, -, rfl⟩ := placeholderAt_eq_some hsome
    obtain ⟨y, hy⟩ := h.drop_head hnul
    rw [← List.append_assoc] at hy
    obtain ⟨-, z, -, hz, -⟩ := hy.split hnul
    refine ⟨0 :: (ascii "FENCE" ++ (digits ++ [0])), rest, ?_, ?_, List.cons_ne_nil _ _, trivial,
      ⟨z, hz⟩⟩
    · simp only [List.append_assoc, List.cons_append, List.nil_append]
    · have hfive : (ascii "FENCE").length = 5 := rfl
      simp only [List.length_append, List.length_cons, List.length_nil, hfive]
      omega

theorem Shows.restoreFences {stash : List Text}
    (hstash : ∀ item ∈ stash, ∃ w, Shows IsOuter item w) (h : Shows IsOuter text shown) :
    ∃ w, Shows IsOuter (restoreFences stash text) w := by
  refine (h.parts (fits_placeholderAt nul_apart) none).flatMap ?_
  intro index _
  cases hitem : stash[index]? with
  | none => exact ⟨[], .nil⟩
  | some item => exact hstash item (List.mem_of_getElem? hitem)

end Fences

end FancyMumble.Interface.WrittenHtml
