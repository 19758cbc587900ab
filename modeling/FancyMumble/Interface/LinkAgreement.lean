import FancyMumble.Interface.SeenLinks

/-!
# Where the extraction agrees with the sender

The extraction returns the targets of the anchors of a body if and only if each of them is a URL of
its own grammar and no other URL is in what the body shows.
-/

namespace FancyMumble.Interface.LinkAgreement

open Interface.LinkExtraction Interface.MarkdownHtml
open Interface.MarkdownUrls Interface.SeenLinks
open Interface.WrittenHtml Interface.WrittenLinks
open Interface.Sanitiser (asciiLower)
open Lib.Json Lib.Occurrences Lib.Scanning

/-! ## The condition -/

def IsWhole (text : Text) : Prop :=
  ¬ ascii "&lt;" <:+: text ∧ ¬ ascii "&gt;" <:+: text ∧ ∀ name ∈ cutReferences, ¬ name <:+ text

/-- A link that the extraction finds as it is: its scheme is one that is extracted, it has no
closing bracket, quote or NUL, and it is whole. -/
structure PlainLink (href : Text) : Prop where
  scheme : ∃ scheme ∈ extractedSchemes, ∃ rest, href = scheme ++ rest ∧ rest ≠ []
  chars : ∀ c ∈ href, isExtractedChar c = true ∧ c ≠ 0
  whole : IsWhole href

def ShowsNoUrl (outer : Text) : Prop :=
  ∀ shown, Shows IsOuter outer shown → findAll extractedMatch shown = []

/-- The links of a draft are found as they are, and no URL is seen outside them. -/
def LinksAgree (draft : Text) : Prop :=
  ShowsNoUrl (outerHtml (draftStash draft) (draftLinks draft).1) ∧
    ∀ link ∈ (draftLinks draft).2,
      PlainLink (restoreFences (draftStash draft) link.1) ∧
        ShowsNoUrl (outerHtml (draftStash draft) link.2)

/-! ## One link -/

section Link

variable {href shown : Text}

theorem shows_scheme {scheme rest : Text} (hscheme : scheme ∈ schemes)
    (h : Shows IsNoTag (scheme ++ rest) shown) :
    ∃ y, shown = scheme ++ y ∧ Shows IsNoTag rest y := by
  have hbare : ∀ c ∈ scheme, isBare c = true := by
    have hall : schemes.all (fun scheme => scheme.all isBare) = true := by decide
    exact List.all_eq_true.mp (List.all_eq_true.mp hall scheme hscheme)
  clear hscheme
  induction scheme generalizing shown with
  | nil => exact ⟨shown, rfl, h⟩
  | cons c scheme ih =>
      rw [List.forall_mem_cons] at hbare
      generalize htext : c :: scheme ++ rest = text at h
      cases h with
      | nil => cases htext
      | bare hc h =>
          obtain ⟨rfl, rfl⟩ := List.cons_eq_cons.mp htext
          obtain ⟨y, rfl, hy⟩ := ih h hbare.2
          exact ⟨y, rfl, hy⟩
      | reference he h =>
          obtain ⟨name, hname, -⟩ := cons_of_reference he
          rw [hname] at htext
          obtain ⟨rfl, -⟩ := List.cons_eq_cons.mp htext
          exact absurd hbare.1 (by decide)
      | tag ht _ _ => exact ht.elim

theorem mem_of_shown (h : Shows IsNoTag href shown) {c : UInt16} (hc : c ∈ shown) :
    (isBare c = true ∧ c ∈ href) ∨ ∃ e ∈ references, e.2 = c ∧ e.1 <:+: href := by
  induction h with
  | nil => cases hc
  | @bare b href shown hb _ ih =>
      rcases List.mem_cons.mp hc with rfl | hc
      · exact .inl ⟨hb, List.mem_cons_self⟩
      · rcases ih hc with ⟨hbare, hmem⟩ | ⟨e, he, heq, hinside⟩
        · exact .inl ⟨hbare, List.mem_cons_of_mem b hmem⟩
        · exact .inr ⟨e, he, heq, hinside.trans (List.suffix_cons b href).isInfix⟩
  | @reference e href shown he _ ih =>
      rcases List.mem_cons.mp hc with rfl | hc
      · exact .inr ⟨e, he, rfl, (List.prefix_append e.1 href).isInfix⟩
      · rcases ih hc with ⟨hbare, hmem⟩ | ⟨e', he', heq, hinside⟩
        · exact .inl ⟨hbare, List.mem_append_right _ hmem⟩
        · exact .inr ⟨e', he', heq, hinside.trans (List.suffix_append e.1 href).isInfix⟩
  | tag ht _ _ _ => exact ht.elim

theorem shown_of_mem (h : Shows IsNoTag href shown) {c : UInt16} (hc : c ∈ href) :
    c ∈ shown ∨ ∃ e ∈ references, c ∈ e.1 := by
  induction h with
  | nil => cases hc
  | @bare b href shown _ _ ih =>
      rcases List.mem_cons.mp hc with rfl | hc
      · exact .inl List.mem_cons_self
      · exact (ih hc).imp_left (List.mem_cons_of_mem _)
  | @reference e href shown he _ ih =>
      rcases List.mem_append.mp hc with hc | hc
      · exact .inr ⟨e, he, hc⟩
      · exact (ih hc).imp_left (List.mem_cons_of_mem _)
  | tag ht _ _ _ => exact ht.elim

theorem reference_of_ampersand {front back : Text}
    (h : Shows IsNoTag (front ++ unit '&' :: back) shown) :
    ∃ e ∈ references, e.1 <+: unit '&' :: back ∧ e.2 ∈ shown := by
  generalize htext : front ++ unit '&' :: back = text at h
  induction h generalizing front with
  | nil => exact absurd htext (by simp)
  | bare hc _ ih =>
      cases front with
      | nil =>
          obtain ⟨rfl, -⟩ := List.cons_eq_cons.mp htext
          exact absurd hc (by decide)
      | cons b front =>
          obtain ⟨-, hrest⟩ := List.cons_eq_cons.mp htext
          obtain ⟨e, he, hstart, hmem⟩ := ih hrest
          exact ⟨e, he, hstart, List.mem_cons_of_mem _ hmem⟩
  | @reference e text shown he _ ih =>
      cases front with
      | nil =>
          rw [List.nil_append] at htext
          exact ⟨e, he, htext ▸ List.prefix_append _ _, List.mem_cons_self⟩
      | cons b front =>
          obtain ⟨name, hname, hamp⟩ := cons_of_reference he
          rw [hname] at htext
          obtain ⟨-, hrest⟩ := List.cons_eq_cons.mp htext
          obtain ⟨rest, -, hrest⟩ := exists_of_notMem hamp hrest
          obtain ⟨e', he', hstart, hmem⟩ := ih hrest
          exact ⟨e', he', hstart, List.mem_cons_of_mem _ hmem⟩
  | tag ht _ _ _ => exact ht.elim

theorem scheme_eq {scheme scheme' text : Text} (hscheme : scheme ∈ schemes)
    (hscheme' : scheme' ∈ extractedSchemes) (h : scheme <+: text) (h' : scheme' <+: text) :
    scheme' = scheme := by
  have hall : schemes.all (fun s => extractedSchemes.all fun s' =>
      s <+: s' ∨ s' <+: s → s' = s) = true := by decide
  have hsame := of_decide_eq_true
    (List.all_eq_true.mp (List.all_eq_true.mp hall scheme hscheme) scheme' hscheme')
  exact hsame (List.prefix_or_prefix_of_prefix h h')

theorem isUrl_scheme_iff {scheme rest : Text} (hscheme : scheme ∈ schemes) :
    IsUrl (scheme ++ rest) ↔
      scheme ∈ extractedSchemes ∧ rest ≠ [] ∧ ∀ c ∈ rest, isExtractedChar c = true := by
  have hlower : scheme.map asciiLower = scheme :=
    forall_of_all (p := fun scheme : Text => scheme.map asciiLower = scheme) (by decide) scheme
      hscheme
  constructor
  · rintro ⟨front, rest', heq, hfront, hne, hrest⟩
    have hstart : scheme <+: (scheme ++ rest).map asciiLower := by
      rw [List.map_append, hlower]
      exact List.prefix_append _ _
    have hstart' : front.map asciiLower <+: (scheme ++ rest).map asciiLower := by
      rw [heq, List.map_append]
      exact List.prefix_append _ _
    have hmap := scheme_eq hscheme hfront hstart hstart'
    have hlen : scheme.length = front.length := by
      rw [← hmap, List.length_map]
    obtain ⟨rfl, rfl⟩ := List.append_inj heq hlen
    exact ⟨hmap ▸ hfront, hne, hrest⟩
  · rintro ⟨hmem, hne, hrest⟩
    exact ⟨scheme, rest, rfl, hlower.symm ▸ hmem, hne, hrest⟩

end Link

/-! ## What is behind the scheme of a link -/

section Rest

variable {rest shown value : Text}

theorem isWhole_append_iff {scheme : Text} (hscheme : scheme ∈ schemes) :
    IsWhole (scheme ++ rest) ↔ IsWhole rest := by
  have hamp : unit '&' ∉ scheme :=
    forall_of_all (p := fun scheme => unit '&' ∉ scheme) (by decide) scheme hscheme
  have hsuffix : ∀ name ∈ cutReferences, name <:+ scheme ++ rest ↔ name <:+ rest := by
    intro name hname
    refine ⟨fun h => ?_, fun h => h.trans (List.suffix_append scheme rest)⟩
    rcases List.suffix_or_suffix_of_suffix h (List.suffix_append scheme rest) with h' | ⟨x, hx⟩
    · exact h'
    · cases x with
      | nil => exact hx ▸ List.suffix_rfl
      | cons c x =>
          have hhead : name = unit '&' :: name.tail :=
            forall_of_all (p := fun name : Text => name = unit '&' :: name.tail) (by decide) name
              hname
          have hinside : c :: x <:+ scheme := by
            rw [← hx] at h
            exact ((List.suffix_append_inj_of_length_eq rfl).mp h).1
          rw [hhead] at hx
          obtain ⟨rfl, -⟩ := List.cons_eq_cons.mp hx
          exact absurd (hinside.subset List.mem_cons_self) hamp
  unfold IsWhole
  rw [show ascii "&lt;" = unit '&' :: ascii "lt;" from rfl,
    show ascii "&gt;" = unit '&' :: ascii "gt;" from rfl, infix_append_iff_of_notMem hamp,
    infix_append_iff_of_notMem hamp]
  exact and_congr_right' (and_congr_right' (forall₂_congr fun name hname =>
    not_congr (hsuffix name hname)))

theorem whole_of_shown (h : Shows IsNoTag rest shown)
    (hshown : ∀ c ∈ shown, isExtractedChar c = true) : IsWhole rest := by
  have hangle : ∀ {pattern : Text}, (unit '&' :: pattern) ∈ [ascii "&lt;", ascii "&gt;"] →
      ¬ unit '&' :: pattern <:+: rest := by
    rintro pattern hpattern ⟨front, back, heq⟩
    rw [← heq, List.append_assoc, List.cons_append] at h
    obtain ⟨e, he, hstart, hmem⟩ := reference_of_ampersand h
    have hextracted := hshown _ hmem
    have hall : references.all (fun e => isExtractedChar e.2 = true →
        Clash (ascii "&lt;") e.1 ∧ Clash (ascii "&gt;") e.1) = true := by decide
    obtain ⟨hlt, hgt⟩ := of_decide_eq_true (List.all_eq_true.mp hall e he) hextracted
    have hpattern' : unit '&' :: pattern <+: unit '&' :: (pattern ++ back) :=
      List.prefix_append (unit '&' :: pattern) back
    have hor := List.prefix_or_prefix_of_prefix hpattern' hstart
    rcases List.mem_cons.mp hpattern with heq' | heq'
    · rw [heq'] at hor
      exact hor.elim hlt.1 hlt.2
    · rw [List.mem_singleton.mp heq'] at hor
      exact hor.elim hgt.1 hgt.2
  have hlt : ¬ unit '&' :: ascii "lt;" <:+: rest := hangle (by decide)
  have hgt : ¬ unit '&' :: ascii "gt;" <:+: rest := hangle (by decide)
  refine ⟨hlt, hgt, ?_⟩
  rintro name hname ⟨front, rfl⟩
  have hhead : name = unit '&' :: name.tail :=
    forall_of_all (p := fun name : Text => name = unit '&' :: name.tail) (by decide) name hname
  rw [hhead] at h
  obtain ⟨e, he, hstart, -⟩ := reference_of_ampersand h
  have hall : cutReferences.all (fun name => references.all fun e => ¬ e.1 <+: name) = true := by
    decide
  rw [← hhead] at hstart
  exact of_decide_eq_true (List.all_eq_true.mp (List.all_eq_true.mp hall name hname) e he) hstart

theorem nil_iff (h : HrefShows rest shown value) : rest = [] ↔ shown = [] := by
  cases h with
  | whole h =>
      cases h with
      | nil => exact Iff.rfl
      | bare _ _ => exact iff_of_false (List.cons_ne_nil _ _) (List.cons_ne_nil _ _)
      | reference he _ =>
          refine iff_of_false ?_ (List.cons_ne_nil _ _)
          exact List.append_ne_nil_of_left_ne_nil
            (List.length_pos_iff.mp (length_pos_of_reference he)) _
      | tag ht _ _ => exact ht.elim
  | @cut e _ _ he _ =>
      have hne : e.1.dropLast ≠ [] :=
        forall_of_all (p := fun e : Text × UInt16 => e.1.dropLast ≠ []) (by decide) e he
      exact iff_of_false (List.append_ne_nil_of_right_ne_nil _ hne)
        (List.append_ne_nil_of_right_ne_nil _ hne)

theorem rest_iff (h : HrefShows rest shown value) :
    (∀ c ∈ rest, isExtractedChar c = true ∧ c ≠ 0) ∧ IsWhole rest ↔
      (∀ c ∈ shown, isExtractedChar c = true) ∧ shown = value.map shownChar := by
  cases h with
  | whole h =>
      constructor
      · rintro ⟨hchars, hlt, hgt, -⟩
        have hshown : ∀ c ∈ shown, isExtractedChar c = true ∧ shownChar c = c := by
          intro c hc
          rcases mem_of_shown h hc with ⟨-, hmem⟩ | ⟨e, he, rfl, hinside⟩
          · exact ⟨(hchars c hmem).1, if_neg (hchars c hmem).2⟩
          · simp only [references, List.mem_cons, List.not_mem_nil, or_false] at he
            rcases he with rfl | rfl | rfl
            · decide
            · exact absurd hinside hlt
            · exact absurd hinside hgt
        exact ⟨fun c hc => (hshown c hc).1,
          ((List.map_congr_left fun c hc => (hshown c hc).2).trans (List.map_id' shown)).symm⟩
      · rintro ⟨hshown, heq⟩
        refine ⟨fun c hc => ?_, whole_of_shown h hshown⟩
        rcases shown_of_mem h hc with hmem | ⟨e, he, hmem⟩
        · refine ⟨hshown c hmem, ?_⟩
          rw [heq] at hmem
          obtain ⟨b, -, rfl⟩ := List.mem_map.mp hmem
          unfold shownChar
          split
          · decide
          · next hb => exact hb
        · have hall : references.all (fun e =>
              e.1.all fun c => isExtractedChar c = true ∧ c ≠ 0) = true := by decide
          exact of_decide_eq_true (List.all_eq_true.mp (List.all_eq_true.mp hall e he) c hmem)
  | @cut e front shown he h =>
      refine iff_of_false ?_ ?_
      · rintro ⟨-, -, -, hcut⟩
        exact hcut _ (mem_cutReferences he) (List.suffix_append _ _)
      · rintro ⟨-, heq⟩
        have hlen := congrArg List.length heq
        have hlong : 2 ≤ e.1.dropLast.length :=
          forall_of_all (p := fun e : Text × UInt16 => 2 ≤ e.1.dropLast.length) (by decide) e he
        rw [List.length_map, List.length_append, List.length_append, List.length_singleton] at hlen
        omega

end Rest

/-! ## One link that is seen -/

section Seen

variable (link : SeenLink)

theorem exists_seen_rest : ∃ scheme ∈ schemes, ∃ rest shown value,
    link.href = scheme ++ rest ∧ link.shown = scheme ++ shown ∧ link.value = scheme ++ value ∧
      HrefShows rest shown value := by
  obtain ⟨scheme, hscheme, rest, hrest⟩ := link.scheme
  refine ⟨scheme, hscheme, rest, ?_⟩
  have hshows := link.href_shows
  generalize link.href = href at hshows hrest
  generalize link.shown = shown at hshows
  generalize link.value = value at hshows
  cases hshows with
  | whole h =>
      rw [← hrest] at h
      obtain ⟨y, rfl, hy⟩ := shows_scheme hscheme h
      exact ⟨y, y, hrest.symm, rfl, rfl, .whole hy⟩
  | @cut e front shown he h =>
      have hamp : unit '&' ∉ scheme :=
        forall_of_all (p := fun scheme => unit '&' ∉ scheme) (by decide) scheme hscheme
      have hname : e.1.dropLast = unit '&' :: e.1.dropLast.tail :=
        forall_of_all (p := fun e : Text × UInt16 =>
          e.1.dropLast = unit '&' :: e.1.dropLast.tail) (by decide) e he
      have hsplit := hrest.symm
      rw [hname] at hsplit
      obtain ⟨behind, rfl, hbehind⟩ := exists_of_notMem hamp hsplit
      obtain ⟨y, rfl, hy⟩ := shows_scheme hscheme h
      rw [← hname] at hbehind
      rw [← hbehind]
      exact ⟨y ++ e.1.dropLast, y ++ [e.2], hrest.symm ▸ hbehind ▸ rfl, List.append_assoc _ _ _,
        List.append_assoc _ _ _, .cut he hy⟩

theorem plainLink_iff :
    PlainLink link.href ↔ IsUrl link.shown ∧ link.shown = link.value.map shownChar := by
  obtain ⟨scheme, hscheme, rest, shown, value, hhref, hshown, hvalue, hrest⟩ :=
    exists_seen_rest link
  have hchars : ∀ c ∈ scheme, isExtractedChar c = true ∧ c ≠ 0 := by
    have hall : schemes.all (fun scheme =>
        scheme.all fun c => isExtractedChar c = true ∧ c ≠ 0) = true := by decide
    intro c hc
    exact of_decide_eq_true (List.all_eq_true.mp (List.all_eq_true.mp hall scheme hscheme) c hc)
  have hsame : scheme.map shownChar = scheme :=
    forall_of_all (p := fun scheme : Text => scheme.map shownChar = scheme) (by decide) scheme
      hscheme
  have hnil : rest = [] ↔ shown = [] := nil_iff hrest
  rw [hshown, hvalue, List.map_append, hsame, List.append_cancel_left_eq, isUrl_scheme_iff hscheme,
    hhref]
  have hrest' := rest_iff hrest
  constructor
  · rintro ⟨⟨scheme', hmem, rest', heq, hne⟩, hall, hwhole⟩
    have hstart' : scheme' <+: scheme ++ rest := heq ▸ List.prefix_append _ _
    obtain rfl := scheme_eq hscheme hmem (List.prefix_append _ _) hstart'
    obtain rfl := List.append_cancel_left heq
    obtain ⟨hshownchars, hsame'⟩ := hrest'.mp
      ⟨(List.forall_mem_append.mp hall).2, (isWhole_append_iff hscheme).mp hwhole⟩
    exact ⟨⟨hmem, mt hnil.mpr hne, hshownchars⟩, hsame'⟩
  · rintro ⟨⟨hmem, hne, hall⟩, heq⟩
    obtain ⟨hrestchars, hwhole⟩ := hrest'.mpr ⟨hall, heq⟩
    exact ⟨⟨scheme, hmem, rest, rfl, mt hnil.mp hne⟩,
      List.forall_mem_append.mpr ⟨hchars, hrestchars⟩, (isWhole_append_iff hscheme).mpr hwhole⟩

theorem isUrl_shown (h : IsUrl (link.value.map shownChar)) : IsUrl link.shown := by
  obtain ⟨scheme, hscheme, rest, shown, value, -, hshown, hvalue, hrest⟩ := exists_seen_rest link
  have hsame : scheme.map shownChar = scheme :=
    forall_of_all (p := fun scheme : Text => scheme.map shownChar = scheme) (by decide) scheme
      hscheme
  rw [hvalue, List.map_append, hsame, isUrl_scheme_iff hscheme] at h
  rw [hshown, isUrl_scheme_iff hscheme]
  obtain ⟨hmem, hne, hall⟩ := h
  have hchar : ∀ c, isExtractedChar (shownChar c) = true → isExtractedChar c = true := by
    intro c hc
    unfold shownChar at hc
    split at hc
    · next hnul => exact hnul ▸ by decide
    · exact hc
  refine ⟨hmem, ?_⟩
  cases hrest with
  | whole _ =>
      refine ⟨fun hnil => hne (List.map_eq_nil_iff.mpr hnil), fun c hc => hchar c ?_⟩
      exact hall _ (List.mem_map_of_mem hc)
  | @cut e front read he _ =>
      have hname : e.1.dropLast ≠ [] ∧ e.1.dropLast.all isExtractedChar = true :=
        forall_of_all (p := fun e : Text × UInt16 =>
          e.1.dropLast ≠ [] ∧ e.1.dropLast.all isExtractedChar = true) (by decide) e he
      refine ⟨List.append_ne_nil_of_right_ne_nil _ hname.1,
        List.forall_mem_append.mpr ⟨fun c hc => hchar c ?_, List.all_eq_true.mp hname.2⟩⟩
      rw [List.map_append] at hall
      exact hall _ (List.mem_append_left _ (List.mem_map_of_mem hc))

end Seen

/-! ## All links of a body -/

theorem append_flatMap_eq_map_iff {α β : Type} (front : List β) (links : List α)
    (found target : α → β) (others : α → List β) :
    (front ++ links.flatMap fun link => found link :: others link) = links.map target ↔
      front = [] ∧ ∀ link ∈ links, found link = target link ∧ others link = [] := by
  have hlen : ∀ links : List α, links.length ≤
      (links.flatMap fun link => found link :: others link).length := by
    intro links
    induction links with
    | nil => exact Nat.le_refl _
    | cons link links ih =>
        rw [List.flatMap_cons, List.length_append, List.length_cons, List.length_cons]
        omega
  induction links generalizing front with
  | nil =>
      rw [List.flatMap_nil, List.append_nil, List.map_nil]
      exact (and_iff_left (List.forall_mem_nil _)).symm
  | cons link links ih =>
      rw [List.flatMap_cons, List.cons_append, List.map_cons, List.forall_mem_cons]
      cases front with
      | nil =>
          refine (List.cons_eq_cons.trans (and_congr_right' (ih (others link)))).trans ?_
          exact ⟨fun ⟨hfound, hothers, hall⟩ => ⟨rfl, ⟨hfound, hothers⟩, hall⟩,
            fun ⟨_, ⟨hfound, hothers⟩, hall⟩ => ⟨hfound, hothers, hall⟩⟩
      | cons first front =>
          refine iff_of_false ?_ fun h => List.cons_ne_nil _ _ h.1
          intro heq
          have hcount := congrArg List.length heq
          have hle := hlen links
          simp only [List.length_append, List.length_cons, List.length_map] at hcount
          omega

section Bodies

variable {reader : AttributeReader} {outer gap : Text}

theorem extract_seen (h : Shows IsOuter outer gap) (links : List SeenLink) :
    extractUrlsFromMessage
        (outer ++ linkHtmls (links.map fun link => (link.href, link.outer))) =
      some (findAll extractedMatch (gap ++ seenText links)) := by
  obtain ⟨s, hs, hreads⟩ := shows_stripTags h
  have hdecode := (hreads _ _ (reads_seen links)).decodeHtmlEntities
  unfold extractUrlsFromMessage
  rw [hs, hdecode]
  rfl

theorem anchorTargets_outer (h : Shows IsOuter outer gap) (html : Text) :
    anchorTargets reader (outer ++ html) = anchorTargets reader html := by
  unfold anchorTargets
  rw [findAll_anchorMatch_outer h]

/-- What is extracted of a body are the targets of its anchors if each link is plain and no URL is
seen beside them, and only then. -/
theorem extract_seen_iff (h : Shows IsOuter outer gap) (links : List SeenLink) :
    extractUrlsFromMessage
        (outer ++ linkHtmls (links.map fun link => (link.href, link.outer))) =
      some (anchorTargets reader
        (outer ++ linkHtmls (links.map fun link => (link.href, link.outer)))) ↔
      findAll extractedMatch gap = [] ∧ ∀ link ∈ links,
        PlainLink link.href ∧ findAll extractedMatch link.gap = [] := by
  rw [extract_seen h, anchorTargets_outer h, anchorTargets_seen, Option.some_inj]
  constructor
  · intro heq
    have hurl : ∀ link ∈ links, IsUrl link.shown := by
      intro link hlink
      have htarget : link.value.map shownChar ∈ findAll extractedMatch (gap ++ seenText links) := by
        rw [heq]
        exact List.mem_map_of_mem hlink
      exact isUrl_shown link (isUrl_of_mem_findAll htarget)
    have hfound : (links.flatMap fun link =>
        findAll extractedMatch link.shown ++ findAll extractedMatch link.gap) =
        links.flatMap fun link => link.shown :: findAll extractedMatch link.gap := by
      refine List.flatMap_congr ?_
      intro link hlink
      rw [(hurl link hlink).findAll]
      rfl
    rw [findAll_seenText, hfound, append_flatMap_eq_map_iff] at heq
    refine ⟨heq.1, fun link hlink => ⟨?_, (heq.2 link hlink).2⟩⟩
    exact (plainLink_iff link).mpr ⟨hurl link hlink, (heq.2 link hlink).1⟩
  · rintro ⟨hgap, hall⟩
    have hfound : (links.flatMap fun link =>
        findAll extractedMatch link.shown ++ findAll extractedMatch link.gap) =
        links.flatMap fun link => link.shown :: findAll extractedMatch link.gap := by
      refine List.flatMap_congr ?_
      intro link hlink
      rw [((plainLink_iff link).mp (hall link hlink).1).1.findAll]
      rfl
    rw [findAll_seenText, hfound, append_flatMap_eq_map_iff]
    exact ⟨hgap, fun link hlink =>
      ⟨((plainLink_iff link).mp (hall link hlink).1).2, (hall link hlink).2⟩⟩

theorem notMem_of_isUrl {url : Text} (h : IsUrl url) : unit '<' ∉ url := by
  obtain ⟨front, rest, rfl, hfront, -, hrest⟩ := h.exists_scheme
  rw [List.mem_append, not_or]
  constructor
  · intro hmem
    have hlower := List.mem_map_of_mem (f := asciiLower) hmem
    exact absurd hlower
      (forall_of_all (p := fun s : Text => asciiLower (unit '<') ∉ s) (by decide) _ hfront)
  · intro hmem
    exact absurd (hrest _ hmem) (by decide)

theorem linkHtmls_cons (link : Text × Text) (links : List (Text × Text)) :
    linkHtmls (link :: links) = anchorHtml link.1 ++ (link.2 ++ linkHtmls links) := by
  unfold linkHtmls
  rw [List.flatMap_cons, List.append_assoc]

theorem broken_target {links : List (Text × Text)}
    (hlinks : ∀ link ∈ links, RestoredLink link.1 ∧ ∃ w, Shows IsOuter link.2 w)
    (hbroken : ∃ link ∈ links, unit '<' ∈ link.1) :
    ∃ target ∈ anchorTargets reader (linkHtmls links), unit '<' ∈ target := by
  induction links with
  | nil =>
      obtain ⟨link, hmem, -⟩ := hbroken
      cases hmem
  | cons link links ih =>
      obtain ⟨href, outer⟩ := link
      rw [List.forall_mem_cons] at hlinks
      obtain ⟨⟨hrestored, w, hw⟩, hlinks⟩ := hlinks
      obtain ⟨rest, hfind, hrest⟩ :=
        findAll_anchorMatch_anchor href (outer ++ linkHtmls links)
      unfold anchorTargets
      rw [linkHtmls_cons]
      dsimp only at hrestored hw ⊢
      rw [hfind]
      cases hrestored with
      | @broken front shown behind hshows hchars =>
          refine ⟨_, List.mem_cons_self, ?_⟩
          have hquote : ∀ c ∈ front, decide (c ≠ unit '"') = true := by
            intro c hc
            refine decide_eq_true ?_
            rintro rfl
            exact absurd (hchars _ hc) (by decide)
          have hcr : unit '\r' ∉ front := fun hmem => absurd (hchars _ hmem) (by decide)
          rw [List.takeWhile_append_of_pos hquote, List.takeWhile_cons_of_pos (by decide),
            target_append hcr hshows, reader.target_cons _ _ (by decide) (by decide) (by decide)]
          exact List.mem_append_right _ List.mem_cons_self
      | link _ hchars =>
          have hopen : unit '<' ∉ href := fun hmem => absurd (hchars _ hmem) (by decide)
          have hquote : unit '"' ∉ href := fun hmem => absurd (hchars _ hmem) (by decide)
          obtain ⟨link, hmem, hangle⟩ := hbroken
          rcases List.mem_cons.mp hmem with rfl | hmem
          · exact absurd hangle hopen
          · obtain ⟨target, htarget, hin⟩ := ih hlinks ⟨link, hmem, hangle⟩
            rw [hrest hopen hquote, findAll_anchorMatch_outer hw]
            exact ⟨target, List.mem_cons_of_mem _ htarget, hin⟩

end Bodies

/-! ## Drafts -/

section Drafts

variable {reader : AttributeReader} (draft : Text)

def restoredLinks : List (Text × Text) :=
  (draftLinks draft).2.map fun link =>
    (restoreFences (draftStash draft) link.1, outerHtml (draftStash draft) link.2)

theorem markdownToHtml_eq_linkHtmls :
    markdownToHtml draft =
      outerHtml (draftStash draft) (draftLinks draft).1 ++ linkHtmls (restoredLinks draft) := by
  rw [markdownToHtml_eq]
  unfold linkHtmls restoredLinks
  rw [List.flatMap_map]

theorem restored_restoredLinks :
    ∀ link ∈ restoredLinks draft, RestoredLink link.1 ∧
      (∃ scheme ∈ schemes, scheme <+: link.1) ∧ ∃ w, Shows IsOuter link.2 w := by
  intro link hlink
  obtain ⟨⟨url, gap⟩, hmem, rfl⟩ := List.mem_map.mp hlink
  obtain ⟨hurl, y, hy⟩ := (shows_draftLinks draft).2 _ hmem
  exact ⟨restored_link (beginWithTags_draftStash draft) hurl, scheme_restored hurl,
    shows_outerHtml hy⟩

theorem exists_seenLinks {links : List (Text × Text)}
    (hlinks : ∀ link ∈ links, RestoredLink link.1 ∧
      (∃ scheme ∈ schemes, scheme <+: link.1) ∧ ∃ w, Shows IsOuter link.2 w)
    (hwhole : ∀ link ∈ links, unit '<' ∉ link.1) :
    ∃ seen : List SeenLink, links = seen.map fun link => (link.href, link.outer) := by
  induction links with
  | nil => exact ⟨[], rfl⟩
  | cons link links ih =>
      obtain ⟨href, outer⟩ := link
      rw [List.forall_mem_cons] at hlinks hwhole
      obtain ⟨⟨hrestored, hscheme, w, hw⟩, hlinks⟩ := hlinks
      obtain ⟨seen, rfl⟩ := ih hlinks hwhole.2
      dsimp only at hrestored hscheme hw hwhole
      cases hrestored with
      | broken _ _ _ => exact absurd (List.mem_append_right _ List.mem_cons_self) hwhole.1
      | @link href shown value hshows hchars =>
          exact ⟨⟨href, outer, shown, value, w, hshows, hchars, hscheme, hw⟩ :: seen, rfl⟩

theorem decode_stripTags {outer gap : Text} (h : Shows IsOuter outer gap) :
    decodeHtmlEntities (stripTags outer) = some gap := by
  obtain ⟨s, hs, hreads⟩ := shows_stripTags h
  have hstrip : stripTags (outer ++ []) = s ++ stripTags [] := hs []
  have hnil : stripTags [] = [] := replace_nil
  have hread : Reads references (s ++ []) (gap ++ []) := hreads [] [] .nil
  rw [List.append_nil, hnil, List.append_nil] at hstrip
  rw [List.append_nil, List.append_nil, ← hstrip] at hread
  exact hread.decodeHtmlEntities

theorem showsNoUrl_iff {outer gap : Text} (h : Shows IsOuter outer gap) :
    ShowsNoUrl outer ↔ findAll extractedMatch gap = [] := by
  refine ⟨fun hno => hno gap h, fun hgap shown hshown => ?_⟩
  have hsame : some shown = some gap := (decode_stripTags hshown).symm.trans (decode_stripTags h)
  rw [Option.some_inj.mp hsame]
  exact hgap

theorem linksAgree_iff :
    LinksAgree draft ↔ ShowsNoUrl (outerHtml (draftStash draft) (draftLinks draft).1) ∧
      ∀ link ∈ restoredLinks draft, PlainLink link.1 ∧ ShowsNoUrl link.2 := by
  unfold LinksAgree restoredLinks
  rw [List.forall_mem_map]

/-- The URLs that are extracted from what a draft becomes are the targets of its anchors exactly
if the draft's links agree. -/
theorem extract_markdownToHtml_iff :
    extractUrlsFromMessage (markdownToHtml draft) =
        some (anchorTargets reader (markdownToHtml draft)) ↔ LinksAgree draft := by
  obtain ⟨⟨x, hx⟩, -⟩ := shows_draftLinks draft
  have hgap : ∃ gap, Shows IsOuter (outerHtml (draftStash draft) (draftLinks draft).1) gap :=
    shows_outerHtml hx
  obtain ⟨gap, hgap⟩ := hgap
  have hlinks := restored_restoredLinks draft
  rw [linksAgree_iff, markdownToHtml_eq_linkHtmls, showsNoUrl_iff hgap]
  generalize outerHtml (draftStash draft) (draftLinks draft).1 = outer at hgap
  generalize restoredLinks draft = links at hlinks
  by_cases hwhole : ∀ link ∈ links, unit '<' ∉ link.1
  · obtain ⟨seen, rfl⟩ := exists_seenLinks hlinks hwhole
    rw [extract_seen_iff hgap, List.forall_mem_map]
    refine and_congr_right' (forall₂_congr fun link _ => and_congr_right' ?_)
    exact (showsNoUrl_iff link.outer_shows).symm
  · -- a fenced block within a link
    push Not at hwhole
    refine iff_of_false ?_ ?_
    · intro heq
      obtain ⟨target, htarget, hangle⟩ : ∃ target ∈ anchorTargets reader (linkHtmls links),
          unit '<' ∈ target :=
        broken_target (fun link hlink => ⟨(hlinks link hlink).1, (hlinks link hlink).2.2⟩) hwhole
      rw [anchorTargets_outer hgap] at heq
      obtain ⟨text, -, hfound⟩ := Option.map_eq_some_iff.mp heq
      rw [← hfound] at htarget
      exact notMem_of_isUrl (isUrl_of_mem_findAll htarget) hangle
    · rintro ⟨-, hall⟩
      obtain ⟨link, hlink, hangle⟩ := hwhole
      exact absurd ((hall link hlink).1.chars _ hangle).1 (by decide)

end Drafts

/-- The extraction returns on a body, and agrees with the sender on a draft, exactly if the
references of the body are in range and the links of the draft agree. -/
theorem extraction_iff (reader : AttributeReader) (body draft : Text) :
    ((extractUrlsFromMessage body).isSome ∧
      extractUrlsFromMessage (markdownToHtml draft) =
        some (anchorTargets reader (markdownToHtml draft))) ↔
      ReferencesInRange body ∧ LinksAgree draft := by
  rw [extractUrlsFromMessage_isSome_iff, extract_markdownToHtml_iff]

def valueMatch (text : Text) : Option (Text × ℕ) :=
  match references.find? (·.1 <+: text) with
  | some e => some ([e.2], e.1.length)
  | none =>
      match references.find? (·.1.dropLast = text) with
      | some e => some ([e.2], e.1.length - 1)
      | none => if text.head? = some 0 then some ([0xFFFD], 1) else none

theorem valueMatch_of_ne {c : UInt16} {text : Text} (hc : c ≠ unit '&') :
    valueMatch (c :: text) = if c = 0 then some ([0xFFFD], 1) else none := by
  have hname : ∀ e ∈ references, ¬ e.1 <+: c :: text ∧ e.1.dropLast ≠ c :: text := by
    intro e he
    obtain ⟨name, hname, -⟩ := cons_of_reference he
    have hcut : e.1.dropLast = unit '&' :: e.1.dropLast.tail :=
      forall_of_all (p := fun e : Text × UInt16 =>
        e.1.dropLast = unit '&' :: e.1.dropLast.tail) (by decide) e he
    rw [hname, ← hname, hcut]
    refine ⟨fun hstart => ?_, fun heq => hc (List.cons_eq_cons.mp heq).1.symm⟩
    rw [hname] at hstart
    exact hc (List.cons_prefix_cons.mp hstart).1.symm
  have hstart : references.find? (·.1 <+: c :: text) = none :=
    List.find?_eq_none.mpr fun e he h => (hname e he).1 (of_decide_eq_true h)
  have hcut : references.find? (·.1.dropLast = c :: text) = none :=
    List.find?_eq_none.mpr fun e he h => (hname e he).2 (of_decide_eq_true h)
  unfold valueMatch
  rw [hstart, hcut, List.head?_cons]
  simp only [Option.some_inj]

theorem find_reference {e : Text × UInt16} (he : e ∈ references) (text : Text) :
    references.find? (·.1 <+: e.1 ++ text) = some e := by
  have hself : decide (e.1 <+: e.1 ++ text) = true := decide_eq_true (List.prefix_append _ _)
  have hsplit : ∃ front back, references = front ++ e :: back ∧
      ∀ e' ∈ front, Clash e'.1 e.1 := by
    simp only [references, List.mem_cons, List.not_mem_nil, or_false] at he
    rcases he with rfl | rfl | rfl
    · exact ⟨[], references.drop 1, rfl, List.forall_mem_nil _⟩
    · exact ⟨references.take 1, references.drop 2, rfl, forall_of_all (by decide)⟩
    · exact ⟨references.take 2, [], rfl, forall_of_all (by decide)⟩
  obtain ⟨front, back, hreferences, hfront⟩ := hsplit
  refine List.find?_eq_some_iff_append.mpr ⟨hself, front, back, hreferences, ?_⟩
  intro e' he'
  rw [Bool.not_eq_true', decide_eq_false_iff_not]
  exact (hfront e' he').append text

def referenceReader : AttributeReader where
  target := replace valueMatch id
  target_nil := replace_nil
  target_cons := by
    intro c text hamp hnul _
    refine replace_cons_of_none ?_
    rw [valueMatch_of_ne hamp, if_neg hnul]
  target_nul := by
    intro text
    have hmatch : valueMatch ([0] ++ text) = some ([0xFFFD], [(0 : UInt16)].length) := by
      exact (valueMatch_of_ne (by decide)).trans (if_pos rfl)
    exact replace_append_of_match hmatch (List.cons_ne_nil _ _)
  target_reference := by
    intro e he text
    have hfind : references.find? (·.1 <+: e.1 ++ text) = some e := find_reference he text
    have hmatch : valueMatch (e.1 ++ text) = some ([e.2], e.1.length) := by
      unfold valueMatch
      rw [hfind]
    exact replace_append_of_match hmatch (List.length_pos_iff.mp (length_pos_of_reference he))
  target_cut := forall_of_all (by decide +kernel)

/-- A number beyond the last code point throws, and a link with a bracket is cut. -/
theorem bracketed_link_is_cut :
    extractUrlsFromMessage (ascii "&#x110000;") = none ∧
      extractUrlsFromMessage (markdownToHtml (ascii "https://en.test/wiki/A_(B)")) =
        some [ascii "https://en.test/wiki/A_(B"] ∧
      anchorTargets referenceReader (markdownToHtml (ascii "https://en.test/wiki/A_(B)")) =
        [ascii "https://en.test/wiki/A_(B)"] := by
  refine ⟨?_, ?_, ?_⟩ <;> decide +kernel

end FancyMumble.Interface.LinkAgreement
