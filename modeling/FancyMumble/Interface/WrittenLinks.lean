import FancyMumble.Interface.WrittenHtml

/-!
# Links that the converter writes

The text that URLs are looked for in falls apart into the URLs for which anchors are written and
what is around them. A URL can end inside a reference, whose semicolon is then trimmed.
-/

namespace FancyMumble.Interface.WrittenLinks

open Interface.MarkdownHtml Interface.MarkdownUrls
open Interface.WrittenHtml
open Lib.Json Lib.Occurrences Lib.Scanning

/-! ## Matches of URLs -/

theorem urlMatch_eq_some {text raw : Text} {n : ℕ} (h : urlMatch text = some (raw, n)) :
    ∃ scheme ∈ schemes, ∃ run rest, text = scheme ++ (run ++ rest) ∧ raw = scheme ++ run ∧
      n = raw.length ∧ run ≠ [] ∧ (∀ c ∈ run, isUrlChar c = true) ∧
      ∀ c, rest.head? = some c → isUrlChar c = false := by
  obtain ⟨k, hk, heq⟩ := Option.map_eq_some_iff.mp h
  rw [Prod.mk.injEq] at heq
  obtain ⟨rfl, rfl⟩ := heq
  obtain ⟨scheme, hscheme, hat⟩ := List.exists_of_findSome?_eq_some hk
  obtain ⟨⟨behind, rfl⟩, hat⟩ := Option.ite_none_right_eq_some.mp hat
  rw [List.drop_left] at hat
  obtain ⟨hne, hat⟩ := Option.ite_none_left_eq_some.mp hat
  obtain rfl := Option.some_inj.mp hat
  have hbehind : behind.takeWhile isUrlChar ++ behind.dropWhile isUrlChar = behind :=
    List.takeWhile_append_dropWhile
  have hraw : (scheme ++ behind).take (scheme.length + (behind.takeWhile isUrlChar).length) =
      scheme ++ behind.takeWhile isUrlChar := by
    rw [List.take_length_add_append]
    exact congrArg _ (List.prefix_iff_eq_take.mp (List.takeWhile_prefix _)).symm
  refine ⟨scheme, hscheme, behind.takeWhile isUrlChar, behind.dropWhile isUrlChar, ?_, hraw, ?_,
    hne, fun c hc => List.mem_takeWhile_imp hc, ?_⟩
  · rw [hbehind]
  · rw [hraw, List.length_append]
  · intro c hc
    have hhead := List.head?_dropWhile_not isUrlChar behind
    rw [hc] at hhead
    exact hhead

theorem isUrlChar_of_mem_scheme {scheme : Text} (hscheme : scheme ∈ schemes) :
    ∀ c ∈ scheme, isUrlChar c = true := by
  have hall : schemes.all (fun scheme => scheme.all isUrlChar) = true := by decide
  exact List.all_eq_true.mp (List.all_eq_true.mp hall scheme hscheme)

/-! ## What is trimmed -/

def isTrimmed (c : UInt16) : Bool := isPunctuation c || c ∈ ascii ")]>" || c = 0xBB

theorem exists_trimStray (out : Text) :
    ∃ dropped, out = dropped ++ trimStray out ∧ ∀ c ∈ dropped, isTrimmed c = true := by
  induction out with
  | nil => exact ⟨[], rfl, List.forall_mem_nil _⟩
  | cons last out ih =>
      unfold trimStray
      split
      · next hstray =>
          obtain ⟨dropped, hout, hall⟩ := ih
          refine ⟨last :: dropped, congrArg (last :: ·) hout, List.forall_mem_cons.mpr ⟨?_, hall⟩⟩
          unfold isStray at hstray
          unfold isTrimmed
          simp only [Bool.or_eq_true, Bool.and_eq_true, decide_eq_true_eq] at hstray ⊢
          rcases hstray with ((⟨rfl, -⟩ | ⟨rfl, -⟩) | rfl) | rfl
          · exact .inl (.inr (by decide))
          · exact .inl (.inr (by decide))
          · exact .inl (.inr (by decide))
          · exact .inr rfl
      · exact ⟨[], rfl, List.forall_mem_nil _⟩

theorem exists_trail (raw : Text) :
    ∃ trail, raw = trimTrailingPunctuation raw ++ trail ∧ ∀ c ∈ trail, isTrimmed c = true := by
  obtain ⟨dropped, hout, hall⟩ := exists_trimStray (raw.rdropWhile isPunctuation).reverse
  have hraw : raw = raw.rdropWhile isPunctuation ++ raw.rtakeWhile isPunctuation := by
    unfold List.rdropWhile List.rtakeWhile
    rw [← List.reverse_append, List.takeWhile_append_dropWhile, List.reverse_reverse]
  refine ⟨dropped.reverse ++ raw.rtakeWhile isPunctuation, ?_, ?_⟩
  · unfold trimTrailingPunctuation
    rw [← List.append_assoc, ← List.reverse_append, ← hout, List.reverse_reverse]
    exact hraw
  · intro c hc
    rcases List.mem_append.mp hc with hc | hc
    · exact hall c (List.mem_reverse.mp hc)
    · have hpunctuation : isPunctuation c = true := List.mem_rtakeWhile_imp hc
      unfold isTrimmed
      rw [hpunctuation]
      rfl

/-! ## URLs in a text that shows another -/

def cutReferences : List Text := ["&amp", "&lt", "&gt"].map ascii

section Shows

variable {IsTag : Text → Prop} {text shown front back : Text}

theorem isUrlChar_of_mem_reference {e : Text × UInt16} (he : e ∈ references) :
    ∀ c ∈ e.1, isUrlChar c = true := by
  have hall : references.all (fun e => e.1.all isUrlChar) = true := by decide
  exact List.all_eq_true.mp (List.all_eq_true.mp hall e he)

theorem shows_reference {e : Text × UInt16} (he : e ∈ references) : Shows IsTag e.1 [e.2] := by
  have h : Shows IsTag (e.1 ++ []) [e.2] := .reference he .nil
  rwa [List.append_nil] at h

/-- A run of the characters of URLs ends no reference and no tag early. -/
theorem shows_run (hfront : ∀ c ∈ front, isUrlChar c = true)
    (hback : ∀ c, back.head? = some c → isUrlChar c = false)
    (h : Shows IsTag (front ++ back) shown) :
    (∃ x, Shows IsNoTag front x) ∧ ∃ y, Shows IsTag back y := by
  generalize htext : front ++ back = text at h
  induction h generalizing front with
  | nil =>
      obtain ⟨rfl, rfl⟩ := List.append_eq_nil_iff.mp htext
      exact ⟨⟨[], .nil⟩, [], .nil⟩
  | @bare c text shown hc h ih =>
      cases front with
      | nil =>
          rw [List.nil_append] at htext
          subst htext
          exact ⟨⟨[], .nil⟩, _, .bare hc h⟩
      | cons c' front =>
          obtain ⟨rfl, hrest⟩ := List.cons_eq_cons.mp htext
          obtain ⟨⟨x, hx⟩, hy⟩ := ih (List.forall_mem_cons.mp hfront).2 hrest
          exact ⟨⟨c' :: x, .bare hc hx⟩, hy⟩
  | @reference e text shown he h ih =>
      rcases List.append_eq_append_iff.mp htext with
        ⟨rest, hfront', hback'⟩ | ⟨rest, hfront', htext'⟩
      · cases rest with
        | nil =>
            rw [List.append_nil] at hfront'
            rw [← hfront']
            refine ⟨⟨[e.2], ?_⟩, shown, hback' ▸ h⟩
            exact shows_reference he
        | cons c rest =>
            cases front with
            | nil =>
          rw [List.nil_append] at htext
          subst htext
          exact ⟨⟨[], .nil⟩, _, .reference he h⟩
            | cons c' front =>
                have hc : c ∈ e.1 := hfront' ▸ List.mem_append_right _ List.mem_cons_self
                have hno := hback c (hback' ▸ rfl)
                rw [isUrlChar_of_mem_reference he c hc] at hno
                cases hno
      · subst hfront'
        obtain ⟨⟨x, hx⟩, hy⟩ :=
          ih (fun c hc => hfront c (List.mem_append_right _ hc)) htext'.symm
        exact ⟨⟨e.2 :: x, .reference he hx⟩, hy⟩
  | @tag t text shown ht hshape h ih =>
      cases front with
      | nil =>
          rw [List.nil_append] at htext
          subst htext
          exact ⟨⟨[], .nil⟩, _, .tag ht hshape h⟩
      | cons c front =>
          obtain ⟨inner, rfl, -⟩ := hshape
          obtain ⟨rfl, -⟩ := List.cons_eq_cons.mp htext
          exact absurd (hfront _ List.mem_cons_self) (by decide)

theorem cut_of_append {e : Text × UInt16} (he : e ∈ references) (h : e.1 = front ++ back)
    (hne : back ≠ []) (hback : ∀ c ∈ back, isTrimmed c = true) :
    front ∈ cutReferences ∧ back = [unit ';'] := by
  have hall : references.all (fun e => (List.range e.1.length).all fun k =>
      (e.1.drop k).all isTrimmed = true →
        e.1.take k ∈ cutReferences ∧ e.1.drop k = [unit ';']) = true := by decide
  have hlen : front.length < e.1.length := by
    rw [h, List.length_append]
    exact Nat.lt_add_of_pos_right (List.length_pos_iff.mpr hne)
  have hcut := of_decide_eq_true (List.all_eq_true.mp (List.all_eq_true.mp hall e he) front.length
    (List.mem_range.mpr hlen))
  rw [h, List.drop_left, List.take_left] at hcut
  exact hcut (List.all_eq_true.mpr hback)

theorem shows_trail (hback : ∀ c ∈ back, isTrimmed c = true)
    (h : Shows IsNoTag (front ++ back) shown) :
    ((∃ x, Shows IsNoTag front x) ∨
      ∃ s x name, name ∈ cutReferences ∧ front = s ++ name ∧ Shows IsNoTag s x) ∧
      ∃ y, Shows IsNoTag back y := by
  generalize htext : front ++ back = text at h
  induction h generalizing front with
  | nil =>
      obtain ⟨rfl, rfl⟩ := List.append_eq_nil_iff.mp htext
      exact ⟨.inl ⟨[], .nil⟩, [], .nil⟩
  | @bare c text shown hc h ih =>
      cases front with
      | nil =>
          rw [List.nil_append] at htext
          subst htext
          exact ⟨.inl ⟨[], .nil⟩, _, .bare hc h⟩
      | cons c' front =>
          obtain ⟨rfl, hrest⟩ := List.cons_eq_cons.mp htext
          obtain ⟨⟨x, hx⟩ | ⟨s, x, name, hname, rfl, hx⟩, hy⟩ := ih hrest
          · exact ⟨.inl ⟨c' :: x, .bare hc hx⟩, hy⟩
          · exact ⟨.inr ⟨c' :: s, c' :: x, name, hname, rfl, .bare hc hx⟩, hy⟩
  | @reference e text shown he h ih =>
      rcases List.append_eq_append_iff.mp htext with ⟨rest, hfront, hback'⟩ | ⟨rest, hfront, htext'⟩
      · cases rest with
        | nil =>
            rw [List.append_nil] at hfront
            rw [← hfront]
            refine ⟨.inl ⟨[e.2], ?_⟩, shown, hback' ▸ h⟩
            exact shows_reference he
        | cons c rest =>
            have hrest : ∀ b ∈ c :: rest, isTrimmed b = true :=
              fun b hb => hback b (hback' ▸ List.mem_append_left _ hb)
            obtain ⟨hcut, hsemicolon⟩ := cut_of_append he hfront (List.cons_ne_nil _ _) hrest
            rw [hsemicolon] at hback'
            refine ⟨.inr ⟨[], [], front, hcut, rfl, .nil⟩, unit ';' :: shown, ?_⟩
            rw [hback']
            exact .bare (by decide) h
      · subst hfront
        obtain ⟨⟨x, hx⟩ | ⟨s, x, name, hname, rfl, hx⟩, hy⟩ := ih htext'.symm
        · exact ⟨.inl ⟨e.2 :: x, .reference he hx⟩, hy⟩
        · refine ⟨.inr ⟨e.1 ++ s, e.2 :: x, name, hname, ?_, .reference he hx⟩, hy⟩
          rw [List.append_assoc]
  | tag ht _ _ _ => exact ht.elim

end Shows

/-! ## Links and what is around them -/

structure RawUrl (raw : Text) : Prop where
  chars : ∀ c ∈ raw, isUrlChar c = true
  scheme : ∃ scheme ∈ schemes, scheme <+: raw
  shows : ∃ x, Shows IsNoTag raw x

structure LinkText (url : Text) : Prop where
  chars : ∀ c ∈ url, isUrlChar c = true
  scheme : ∃ scheme ∈ schemes, scheme <+: url
  shows : (∃ x, Shows IsNoTag url x) ∨
    ∃ s x name, name ∈ cutReferences ∧ url = s ++ name ∧ Shows IsNoTag s x

theorem apart_of_scheme {scheme text : Text} {c : UInt16} (hscheme : scheme ∈ schemes)
    (h : scheme <+: c :: text) : Apart IsInline c := by
  have hall : schemes.all (fun scheme => (scheme.take 1).all fun c =>
      c ∉ ascii "&ampltg;<>" ∧ inlineTags.all (fun t => c ∉ t) = true) = true := by decide
  have hone : schemes.all (fun scheme => 0 < scheme.length) = true := by decide
  have hpos := of_decide_eq_true (List.all_eq_true.mp hone scheme hscheme)
  have hhead : c ∈ scheme.take 1 := by
    obtain ⟨c', scheme', rfl⟩ := List.exists_cons_of_length_pos hpos
    obtain ⟨rfl, -⟩ := List.cons_prefix_cons.mp h
    exact List.mem_cons_self
  have hchar := of_decide_eq_true
    (List.all_eq_true.mp (List.all_eq_true.mp hall scheme hscheme) c hhead)
  exact ⟨hchar.1, fun t ht => of_decide_eq_true (List.all_eq_true.mp hchar.2 t ht)⟩

theorem fits_urlMatch : Fits IsInline (fun _ => urlMatch) RawUrl := by
  constructor
  · intro before c text raw n hsome
    obtain ⟨scheme, hscheme, run, rest, htext, -⟩ := urlMatch_eq_some hsome
    exact apart_of_scheme hscheme (htext ▸ List.prefix_append _ _)
  · intro before text shown raw n h hsome
    obtain ⟨scheme, hscheme, run, rest, rfl, rfl, rfl, hne, hrun, hrest⟩ := urlMatch_eq_some hsome
    have hchars : ∀ c ∈ scheme ++ run, isUrlChar c = true := by
      intro c hc
      exact (List.mem_append.mp hc).elim (isUrlChar_of_mem_scheme hscheme c) (hrun c)
    rw [← List.append_assoc] at h ⊢
    obtain ⟨hraw, hy⟩ := shows_run hchars hrest h
    exact ⟨scheme ++ run, rest, rfl, rfl, List.append_ne_nil_of_right_ne_nil _ hne,
      ⟨hchars, ⟨scheme, hscheme, List.prefix_append _ _⟩, hraw⟩, hy⟩

theorem scheme_of_trim {url trail scheme : Text} (hscheme : scheme ∈ schemes)
    (h : scheme <+: url ++ trail) (htrail : ∀ c ∈ trail, isTrimmed c = true) : scheme <+: url := by
  rcases List.prefix_or_prefix_of_prefix h (List.prefix_append url trail) with hstart | hstart
  · exact hstart
  · obtain ⟨rest, rfl⟩ := hstart
    rw [List.prefix_append_right_inj] at h
    rcases List.eq_nil_or_concat rest with rfl | ⟨rest, last, rfl⟩
    · rw [List.append_nil]
    · have hall : schemes.all (fun scheme => scheme.getLast? = some (unit '/')) = true := by decide
      have hlast := of_decide_eq_true (List.all_eq_true.mp hall _ hscheme)
      rw [List.getLast?_append, List.concat_eq_append, List.getLast?_concat] at hlast
      obtain rfl := Option.some_inj.mp hlast
      have hmem : unit '/' ∈ trail :=
        h.subset (List.concat_eq_append ▸ List.mem_append_right _ List.mem_cons_self)
      exact absurd (htrail _ hmem) (by decide)

theorem RawUrl.trim {raw : Text} (h : RawUrl raw) :
    LinkText (trimTrailingPunctuation raw) ∧
      ∃ y, Shows IsNoTag (raw.drop (trimTrailingPunctuation raw).length) y := by
  obtain ⟨trail, hraw, htrail⟩ := exists_trail raw
  generalize trimTrailingPunctuation raw = url at hraw
  subst hraw
  obtain ⟨hchars, ⟨scheme, hscheme, hstart⟩, x, hx⟩ := h
  obtain ⟨hurl, hy⟩ := shows_trail htrail hx
  rw [List.drop_left]
  exact ⟨⟨fun c hc => hchars c (List.mem_append_left _ hc),
    ⟨scheme, hscheme, scheme_of_trim hscheme hstart htrail⟩, hurl⟩, hy⟩

def splitLinks : List (UInt16 ⊕ Text) → Text × List (Text × Text)
  | [] => ([], [])
  | .inl c :: parts => (c :: (splitLinks parts).1, (splitLinks parts).2)
  | .inr raw :: parts =>
      ([], (trimTrailingPunctuation raw,
        raw.drop (trimTrailingPunctuation raw).length ++ (splitLinks parts).1) ::
          (splitLinks parts).2)

theorem splitLinks_map_inl (front : Text) (parts : List (UInt16 ⊕ Text)) :
    splitLinks (front.map .inl ++ parts) =
      (front ++ (splitLinks parts).1, (splitLinks parts).2) := by
  induction front with
  | nil => rfl
  | cons c front ih =>
      rw [List.map_cons, List.cons_append, splitLinks, ih]
      rfl

theorem links_of_parts {parts : List (UInt16 ⊕ Text)} (h : Parts IsInline RawUrl parts) :
    (∃ x, Shows IsInline (splitLinks parts).1 x) ∧
      ∀ link ∈ (splitLinks parts).2, LinkText link.1 ∧ ∃ y, Shows IsInline link.2 y := by
  induction h with
  | nil => exact ⟨⟨[], .nil⟩, List.forall_mem_nil _⟩
  | bare hc _ ih =>
      obtain ⟨⟨x, hx⟩, hlinks⟩ := ih
      exact ⟨⟨_, .bare hc hx⟩, hlinks⟩
  | reference he _ ih =>
      obtain ⟨⟨x, hx⟩, hlinks⟩ := ih
      rw [splitLinks_map_inl]
      exact ⟨⟨_, .reference he hx⟩, hlinks⟩
  | tag ht hshape _ ih =>
      obtain ⟨⟨x, hx⟩, hlinks⟩ := ih
      rw [splitLinks_map_inl]
      exact ⟨⟨_, .tag ht hshape hx⟩, hlinks⟩
  | found hraw _ ih =>
      obtain ⟨⟨x, hx⟩, hlinks⟩ := ih
      obtain ⟨hlink, y, hy⟩ := hraw.trim
      have hgap := (Shows.mono hy fun _ ht => ht.elim).append hx
      exact ⟨⟨[], .nil⟩, List.forall_mem_cons.mpr ⟨⟨hlink, _, hgap⟩, hlinks⟩⟩

/-! ## The body of a message, link by link -/

def anchorHtml (url : Text) : Text := anchorStart ++ (url ++ (anchorMiddle ++ (url ++ anchorEnd)))

theorem escapeQuotes_of_notMem {url : Text} (h : unit '"' ∉ url) : escapeQuotes url = url := by
  induction url with
  | nil => rfl
  | cons c url ih =>
      rw [List.mem_cons, not_or] at h
      have hcons : escapeQuotes (c :: url) =
          (if c = unit '"' then ascii "&quot;" else [c]) ++ escapeQuotes url := List.flatMap_cons
      rw [hcons, if_neg (Ne.symm h.1), ih h.2]
      rfl

theorem LinkText.notMem {url : Text} (h : LinkText url) {c : UInt16} (hc : isUrlChar c = false) :
    c ∉ url := by
  intro hmem
  rw [h.chars c hmem] at hc
  cases hc

theorem linkify_eq {parts : List (UInt16 ⊕ Text)}
    (h : ∀ link ∈ (splitLinks parts).2, LinkText link.1) :
    parts.flatMap (Sum.elim (fun c => [c]) linkHtml) =
      (splitLinks parts).1 ++ (splitLinks parts).2.flatMap fun link =>
        anchorHtml link.1 ++ link.2 := by
  induction parts with
  | nil => rfl
  | cons part parts ih =>
      cases part with
      | inl c => exact congrArg (c :: ·) (ih h)
      | inr raw =>
          have hall := List.forall_mem_cons.mp h
          have hquotes := escapeQuotes_of_notMem (hall.1.notMem (c := unit '"') (by decide))
          rw [List.flatMap_cons, ih hall.2, splitLinks, List.nil_append, List.flatMap_cons]
          dsimp only [Sum.elim_inr, linkHtml, anchorHtml] at hquotes ⊢
          rw [hquotes]
          simp only [List.append_assoc]

def isBesidePlaceholders (c : UInt16) : Bool := c ∉ 0 :: ascii "FENCE" && !isDigit c

theorem takeWhile_append_cons {p : UInt16 → Bool} {front back : Text} {c : UInt16}
    (hc : p c = false) : (front ++ c :: back).takeWhile p = front.takeWhile p := by
  induction front with
  | nil =>
      rw [List.nil_append, List.takeWhile_cons, hc]
      rfl
  | cons c' front ih => rw [List.cons_append, List.takeWhile_cons, List.takeWhile_cons, ih]

theorem placeholderAt_append {front back : Text} {c : UInt16}
    (hc : isBesidePlaceholders c = true) :
    placeholderAt (front ++ c :: back) = placeholderAt front := by
  unfold isBesidePlaceholders at hc
  rw [Bool.and_eq_true, decide_eq_true_iff, Bool.not_eq_true'] at hc
  unfold placeholderAt
  by_cases hstart : 0 :: ascii "FENCE" <+: front
  · rw [if_pos hstart, if_pos ((prefix_append_cons_iff hc.1).mpr hstart)]
    obtain ⟨behind, rfl⟩ := hstart
    have hdrop : ∀ more : Text, (0 :: ascii "FENCE" ++ more).drop 6 = more := fun _ => rfl
    have hhead : ((behind ++ c :: back).drop (behind.takeWhile isDigit).length).head? = some 0 ↔
        (behind.drop (behind.takeWhile isDigit).length).head? = some 0 := by
      have hle : (behind.takeWhile isDigit).length ≤ behind.length :=
        (List.takeWhile_prefix _).length_le
      rw [List.drop_append_of_le_length hle]
      cases behind.drop (behind.takeWhile isDigit).length with
      | nil =>
          rw [List.nil_append, List.head?_cons, Option.some_inj, List.head?_nil]
          refine iff_of_false ?_ (Ne.symm (Option.some_ne_none 0))
          rintro rfl
          exact hc.1 List.mem_cons_self
      | cons c' rest => exact Iff.rfl
    rw [List.append_assoc]
    simp only [← List.drop_drop, hdrop, takeWhile_append_cons hc.2, hhead]
  · rw [if_neg hstart, if_neg (mt (prefix_append_cons_iff hc.1).mp hstart)]

section Restore

variable {stash : List Text} {front back : Text} {c : UInt16}

theorem restoreFences_append (hc : isBesidePlaceholders c = true) :
    restoreFences stash (front ++ c :: back) =
      restoreFences stash front ++ restoreFences stash (c :: back) := by
  unfold restoreFences
  refine replace_append ⟨?_, ?_⟩
  · intro b rest _
    rw [← List.cons_append]
    exact placeholderAt_append hc
  · intro b rest index n _ hsome
    obtain ⟨digits, behind, htext, -, -, -, rfl⟩ := placeholderAt_eq_some hsome
    have hfive : (ascii "FENCE").length = 5 := rfl
    rw [htext]
    simp only [List.length_cons, List.length_append, hfive]
    omega

theorem restoreFences_of_notMem (h : (0 : UInt16) ∉ front) :
    restoreFences stash (front ++ back) = front ++ restoreFences stash back := by
  unfold restoreFences
  refine replace_append_of_none ?_
  intro b rest hsuffix
  cases hsome : placeholderAt (b :: (rest ++ back)) with
  | none => rfl
  | some found =>
      obtain ⟨digits, behind, htext, -⟩ := placeholderAt_eq_some hsome
      obtain ⟨rfl, -⟩ := List.cons_eq_cons.mp htext
      exact absurd (hsuffix.subset List.mem_cons_self) h

def outerHtml (stash : List Text) (gap : Text) : Text := restoreFences stash (breakLines gap)

theorem restoreFences_anchor (url : Text) :
    restoreFences stash (anchorHtml url ++ back) =
      anchorHtml (restoreFences stash url) ++ restoreFences stash back := by
  have hstart : (0 : UInt16) ∉ anchorStart := by decide
  have hmiddle : (0 : UInt16) ∉ anchorMiddle := by decide
  have hend : (0 : UInt16) ∉ anchorEnd := by decide
  have hquote : ∀ more : Text, restoreFences stash (url ++ (anchorMiddle ++ more)) =
      restoreFences stash url ++ (anchorMiddle ++ restoreFences stash more) := by
    intro more
    rw [← restoreFences_of_notMem hmiddle]
    exact restoreFences_append (c := unit '"') (by decide)
  have hangle : ∀ more : Text, restoreFences stash (url ++ (anchorEnd ++ more)) =
      restoreFences stash url ++ (anchorEnd ++ restoreFences stash more) := by
    intro more
    rw [← restoreFences_of_notMem hend]
    exact restoreFences_append (c := unit '<') (by decide)
  unfold anchorHtml
  simp only [List.append_assoc]
  rw [restoreFences_of_notMem hstart, hquote, hangle]

theorem newline_notMem_anchorHtml {url : Text} (h : unit '\n' ∉ url) :
    unit '\n' ∉ anchorHtml url := by
  have hstart : unit '\n' ∉ anchorStart := by decide
  have hmiddle : unit '\n' ∉ anchorMiddle := by decide
  have hend : unit '\n' ∉ anchorEnd := by decide
  unfold anchorHtml
  simp only [List.mem_append, not_or]
  exact ⟨hstart, h, hmiddle, h, hend⟩

theorem restoreFences_links (links : List (Text × Text))
    (h : ∀ link ∈ links, unit '\n' ∉ link.1) (gap : Text) :
    restoreFences stash
        (breakLines (gap ++ links.flatMap fun link => anchorHtml link.1 ++ link.2)) =
      outerHtml stash gap ++ links.flatMap fun link =>
        anchorHtml (restoreFences stash link.1) ++ outerHtml stash link.2 := by
  induction links generalizing gap with
  | nil =>
      rw [List.flatMap_nil, List.flatMap_nil, List.append_nil, List.append_nil]
      rfl
  | cons link links ih =>
      rw [List.forall_mem_cons] at h
      rw [List.flatMap_cons, List.flatMap_cons, List.append_assoc, breakLines_append,
        breakLines_append, breakLines_of_notMem (newline_notMem_anchorHtml h.1), List.append_assoc,
        ← ih h.2 link.2, ← restoreFences_anchor]
      exact restoreFences_append (c := unit '<') (by decide)

end Restore

def draftLinks (raw : Text) : Text × List (Text × Text) :=
  splitLinks (find urlMatch (formattedText raw))

def draftStash (raw : Text) : List Text := fenceStash (escapeHtml raw)

theorem shows_formattedText (raw : Text) : ∃ w, Shows IsInline (formattedText raw) w := by
  have hescaped : Shows IsNoTag (escapeHtml raw) raw := .escapeHtml raw
  obtain ⟨w, hw⟩ := hescaped.stashFences
  exact hw.applyFormats

theorem shows_of_mem_draftStash {raw item : Text} (h : item ∈ draftStash raw) :
    ∃ w, Shows IsOuter item w :=
  shows_of_mem_fenceStash (Shows.escapeHtml raw) h

theorem shows_draftLinks (raw : Text) :
    (∃ x, Shows IsInline (draftLinks raw).1 x) ∧
      ∀ link ∈ (draftLinks raw).2, LinkText link.1 ∧ ∃ y, Shows IsInline link.2 y := by
  obtain ⟨w, hw⟩ := shows_formattedText raw
  exact links_of_parts (hw.parts fits_urlMatch none)

theorem shows_outerHtml {raw gap x : Text} (h : Shows IsInline gap x) :
    ∃ w, Shows IsOuter (outerHtml (draftStash raw) gap) w := by
  obtain ⟨y, hy⟩ := h.breakLines
  exact hy.restoreFences fun item hitem => shows_of_mem_draftStash hitem

theorem markdownToHtml_eq (raw : Text) :
    markdownToHtml raw =
      outerHtml (draftStash raw) (draftLinks raw).1 ++ (draftLinks raw).2.flatMap fun link =>
        anchorHtml (restoreFences (draftStash raw) link.1) ++
          outerHtml (draftStash raw) link.2 := by
  have hlinks := (shows_draftLinks raw).2
  rw [← restoreFences_links _ fun link hlink => (hlinks link hlink).1.notMem (by decide)]
  unfold draftLinks
  rw [← linkify_eq fun link hlink => (hlinks link hlink).1]
  rfl

end FancyMumble.Interface.WrittenLinks
