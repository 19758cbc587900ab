import FancyMumble.Interface.LinkAgreement

/-!
# Bodies without foreign markup

Every angle bracket of a body that the converter writes belongs to a tag of the converter, whatever
the draft is, unless a fenced block has come into the target of a link.
-/

namespace FancyMumble.Interface.WrittenBody

open Interface.LinkAgreement Interface.MarkdownHtml
open Interface.MarkdownUrls
open Interface.SeenLinks Interface.WrittenHtml
open Interface.WrittenLinks
open Lib.Json Lib.Occurrences Lib.Scanning

/-! ## Tagged texts -/

/-- A text whose angle brackets all belong to tags of some kind. -/
inductive Tagged (IsTag : Text → Prop) : Text → Prop
  | nil : Tagged IsTag []
  | char {c : UInt16} {text : Text} (hopen : c ≠ unit '<') (hclose : c ≠ unit '>')
      (h : Tagged IsTag text) : Tagged IsTag (c :: text)
  | tag {t text : Text} (ht : IsTag t) (hshape : TagShape t) (h : Tagged IsTag text) :
      Tagged IsTag (t ++ text)

section Tagged

variable {IsTag IsTag' : Text → Prop} {front back text shown t : Text}

theorem Tagged.mono (h : Tagged IsTag text) (himp : ∀ t, IsTag t → IsTag' t) :
    Tagged IsTag' text := by
  induction h with
  | nil => exact .nil
  | char hopen hclose _ ih => exact .char hopen hclose ih
  | tag ht hshape _ ih => exact .tag (himp _ ht) hshape ih

theorem Tagged.append (hfront : Tagged IsTag front) (hback : Tagged IsTag back) :
    Tagged IsTag (front ++ back) := by
  induction hfront with
  | nil => exact hback
  | char hopen hclose _ ih => exact .char hopen hclose ih
  | tag ht hshape _ ih =>
      rw [List.append_assoc]
      exact .tag ht hshape ih

theorem Tagged.of_notMem (hopen : unit '<' ∉ text) (hclose : unit '>' ∉ text) :
    Tagged IsTag text := by
  induction text with
  | nil => exact .nil
  | cons c text ih =>
      rw [List.mem_cons, not_or] at hopen hclose
      exact .char (Ne.symm hopen.1) (Ne.symm hclose.1) (ih hopen.2 hclose.2)

theorem tagged_of_shows (h : Shows IsTag text shown) : Tagged IsTag text := by
  induction h with
  | nil => exact .nil
  | bare hc _ ih =>
      unfold isBare at hc
      simp only [Bool.and_eq_true, decide_eq_true_eq] at hc
      exact .char hc.1.2 hc.2 ih
  | reference he _ ih =>
      have hangle := forall_of_all
        (p := fun e : Text × UInt16 => unit '<' ∉ e.1 ∧ unit '>' ∉ e.1) (by decide) _ he
      exact (Tagged.of_notMem hangle.1 hangle.2).append ih
  | tag ht hshape _ ih => exact .tag ht hshape ih

theorem tagShape_unique {t' : Text} (h : TagShape t) (h' : TagShape t')
    (heq : t ++ text = t' ++ back) : t = t' ∧ text = back := by
  obtain ⟨inner, rfl, -, -, hinner⟩ := h
  obtain ⟨inner', rfl, -, -, hinner'⟩ := h'
  simp only [List.cons_append, List.append_assoc, List.cons.injEq, true_and, List.nil_append]
    at heq
  have hlen : inner.length = inner'.length := by
    have hindex := congrArg (Lib.Occurrences.indexOf [unit '>']) heq
    rw [indexOf_singleton hinner, indexOf_singleton hinner'] at hindex
    exact Option.some_inj.mp hindex
  obtain ⟨rfl, hrest⟩ := List.append_inj heq hlen
  exact ⟨rfl, (List.cons_eq_cons.mp hrest).2⟩

theorem Tagged.tail_of_char {c : UInt16} (hopen : c ≠ unit '<') (h : Tagged IsTag (c :: text)) :
    Tagged IsTag text := by
  generalize hwhole : c :: text = whole at h
  cases h with
  | nil => cases hwhole
  | char _ _ h =>
      obtain ⟨-, rfl⟩ := List.cons_eq_cons.mp hwhole
      exact h
  | tag _ hshape _ =>
      obtain ⟨inner, rfl, -⟩ := hshape
      obtain ⟨rfl, -⟩ := List.cons_eq_cons.mp hwhole
      exact absurd rfl hopen

theorem Tagged.tail_of_tag (hshape : TagShape t) (h : Tagged IsTag (t ++ text)) :
    Tagged IsTag text := by
  generalize hwhole : t ++ text = whole at h
  cases h with
  | nil =>
      obtain ⟨inner, rfl, -⟩ := hshape
      cases hwhole
  | char hopen _ _ =>
      obtain ⟨inner, rfl, -⟩ := hshape
      obtain ⟨rfl, -⟩ := List.cons_eq_cons.mp hwhole
      exact absurd rfl hopen
  | tag _ hshape' h =>
      obtain ⟨-, rfl⟩ := tagShape_unique hshape hshape' hwhole
      exact h

theorem Tagged.of_append (hfront : Tagged IsTag' front) (h : Tagged IsTag (front ++ back)) :
    Tagged IsTag back := by
  induction hfront with
  | nil => exact h
  | char hopen _ _ ih => exact ih (h.tail_of_char hopen)
  | tag _ hshape _ ih =>
      rw [List.append_assoc] at h
      exact ih (h.tail_of_tag hshape)

theorem not_tagged_of_nested {inner : Text} (hopen : unit '<' ∉ inner) (hclose : unit '>' ∉ inner) :
    ¬ Tagged IsTag (unit '<' :: (inner ++ unit '<' :: back)) := by
  intro h
  generalize hwhole : unit '<' :: (inner ++ unit '<' :: back) = whole at h
  cases h with
  | nil => cases hwhole
  | char hne _ _ =>
      obtain ⟨rfl, -⟩ := List.cons_eq_cons.mp hwhole
      exact absurd rfl hne
  | tag _ hshape _ =>
      obtain ⟨inner', rfl, -, hopen', hclose'⟩ := hshape
      simp only [List.cons_append, List.append_assoc, List.cons.injEq, true_and,
        List.nil_append] at hwhole
      -- the shorter of the two would hold the bracket that is behind it
      rcases List.append_eq_append_iff.mp hwhole with ⟨rest, rfl, hrest⟩ | ⟨rest, rfl, hrest⟩
      · cases rest with
        | nil => exact absurd (List.cons_eq_cons.mp hrest).1 (by decide)
        | cons c rest =>
            obtain ⟨rfl, -⟩ := List.cons_eq_cons.mp hrest
            exact hopen' (List.mem_append_right _ List.mem_cons_self)
      · cases rest with
        | nil => exact absurd (List.cons_eq_cons.mp hrest).1 (by decide)
        | cons c rest =>
            obtain ⟨rfl, -⟩ := List.cons_eq_cons.mp hrest
            exact hclose (List.mem_append_right _ List.mem_cons_self)

end Tagged

/-! ## Bodies -/

structure IsTarget (url : Text) : Prop where
  scheme : ∃ scheme ∈ schemes, scheme <+: url
  chars : ∀ c ∈ url, isUrlChar c = true

def IsWritten (t : Text) : Prop :=
  IsOuter t ∨ t = anchorEnd ∨ ∃ url, IsTarget url ∧ t = anchorStart ++ (url ++ anchorMiddle)

section Bodies

variable {text outer url shown : Text}

theorem IsTarget.notMem (h : IsTarget url) {c : UInt16} (hc : isUrlChar c = false) : c ∉ url := by
  intro hmem
  rw [h.chars c hmem] at hc
  cases hc

theorem written_outer (h : Shows IsOuter outer shown) : Tagged IsWritten outer :=
  (tagged_of_shows h).mono fun _ => .inl

theorem written_anchor (h : IsTarget url) : Tagged IsWritten (anchorHtml url) := by
  have hopen : unit '<' ∉ url := h.notMem (by decide)
  have hclose : unit '>' ∉ url := h.notMem (by decide)
  have hstart : IsWritten (anchorStart ++ (url ++ anchorMiddle)) := .inr (.inr ⟨url, h, rfl⟩)
  have hend : IsWritten anchorEnd := .inr (.inl rfl)
  have hshape : TagShape anchorEnd := ⟨ascii "/a", rfl, by decide, by decide, by decide⟩
  have htext : Tagged IsWritten url := .of_notMem hopen hclose
  have hlast : Tagged IsWritten (anchorEnd ++ []) := .tag hend hshape .nil
  have hsplit : anchorHtml url =
      anchorStart ++ (url ++ anchorMiddle) ++ (url ++ (anchorEnd ++ [])) := by
    unfold anchorHtml
    simp only [List.append_assoc, List.append_nil]
  rw [hsplit]
  exact .tag hstart (anchor_shape hopen hclose) (htext.append hlast)

theorem not_tagged_broken {front rest more : Text} (hchars : ∀ c ∈ front, isUrlChar c = true) :
    ¬ Tagged IsWritten (anchorHtml (front ++ unit '<' :: rest) ++ more) := by
  have hnot : ∀ c, isUrlChar c = false → c ∉ front := by
    intro c hc hmem
    rw [hchars c hmem] at hc
    cases hc
  have hsplit : anchorHtml (front ++ unit '<' :: rest) ++ more =
      unit '<' :: ((ascii "a href=\"" ++ front) ++ unit '<' :: (rest ++ (anchorMiddle ++
        (front ++ unit '<' :: (rest ++ (anchorEnd ++ more)))))) := by
    unfold anchorHtml
    simp only [List.append_assoc, List.cons_append]
    rfl
  rw [hsplit]
  refine not_tagged_of_nested ?_ ?_
  · rw [List.mem_append, not_or]
    exact ⟨by decide, hnot _ (by decide)⟩
  · rw [List.mem_append, not_or]
    exact ⟨by decide, hnot _ (by decide)⟩

theorem written_linkHtmls_iff {links : List (Text × Text)}
    (hlinks : ∀ link ∈ links, RestoredLink link.1 ∧
      (∃ scheme ∈ schemes, scheme <+: link.1) ∧ ∃ w, Shows IsOuter link.2 w) :
    Tagged IsWritten (linkHtmls links) ↔ ∀ link ∈ links, unit '<' ∉ link.1 := by
  induction links with
  | nil => exact iff_of_true .nil (List.forall_mem_nil _)
  | cons link links ih =>
      obtain ⟨href, outer⟩ := link
      rw [List.forall_mem_cons] at hlinks ⊢
      obtain ⟨⟨hrestored, hscheme, w, hw⟩, hlinks⟩ := hlinks
      rw [linkHtmls_cons]
      dsimp only at hrestored hscheme hw ⊢
      cases hrestored with
      | @link href _ _ hshows hchars =>
          have htarget : IsTarget href := ⟨hscheme, hchars⟩
          have hanchor := written_anchor htarget
          have houter := written_outer hw
          rw [← ih hlinks]
          constructor
          · intro h
            exact ⟨htarget.notMem (by decide), houter.of_append (hanchor.of_append h)⟩
          · rintro ⟨-, h⟩
            exact hanchor.append (houter.append h)
      | broken rest _ hchars =>
          refine iff_of_false (not_tagged_broken hchars) ?_
          rintro ⟨hnot, -⟩
          exact hnot (List.mem_append_right _ List.mem_cons_self)

/-- The body of a draft holds no markup but the tags of the converter, with targets that cannot end
their attributes, exactly if no fenced block stands in a URL that becomes a link. -/
theorem markdownToHtml_written_iff (raw : Text) :
    Tagged IsWritten (markdownToHtml raw) ↔
      ∀ link ∈ (draftLinks raw).2, unit '<' ∉ restoreFences (draftStash raw) link.1 := by
  obtain ⟨⟨x, hx⟩, -⟩ := shows_draftLinks raw
  have hfront : ∃ w, Shows IsOuter (outerHtml (draftStash raw) (draftLinks raw).1) w :=
    shows_outerHtml hx
  obtain ⟨w, hw⟩ := hfront
  have houter := written_outer hw
  have hlinks := written_linkHtmls_iff (restored_restoredLinks raw)
  unfold restoredLinks at hlinks
  rw [List.forall_mem_map] at hlinks
  rw [markdownToHtml_eq_linkHtmls, ← hlinks]
  exact ⟨houter.of_append, houter.append⟩

end Bodies

end FancyMumble.Interface.WrittenBody
