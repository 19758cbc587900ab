import FancyMumble.Interface.LinkExtraction

/-!
# What is seen of links

What the extraction and a browser see of a body that the converter wrote: its anchors, with what was
put aside in their place, and the text around them.
-/

namespace FancyMumble.Interface.SeenLinks

open Interface.LinkExtraction Interface.MarkdownHtml
open Interface.MarkdownUrls Interface.WrittenHtml
open Interface.WrittenLinks
open Interface.Sanitiser (asciiLower)
open Lib.Json Lib.Occurrences Lib.Scanning

/-! ## URLs that are extracted -/

section Extracted

variable {text front rest back m : Text} {n : ℕ}

structure IsUrl (text : Text) : Prop where
  exists_scheme : ∃ front rest, text = front ++ rest ∧ front.map asciiLower ∈ extractedSchemes ∧
    rest ≠ [] ∧ ∀ c ∈ rest, isExtractedChar c = true

theorem extractedMatch_eq_some (h : extractedMatch text = some (m, n)) :
    IsUrl m ∧ n = m.length ∧ ∃ back, text = m ++ back := by
  obtain ⟨scheme, hscheme, hat⟩ := List.exists_of_findSome?_eq_some h
  obtain ⟨hstart, hat⟩ := Option.ite_none_right_eq_some.mp hat
  obtain ⟨hne, hat⟩ := Option.ite_none_left_eq_some.mp hat
  rw [Option.some_inj, Prod.mk.injEq] at hat
  obtain ⟨rfl, rfl⟩ := hat
  generalize hrest : (text.drop scheme.length).takeWhile isExtractedChar = rest at hne
  have hlen : scheme.length ≤ text.length := by
    have hle := hstart.length_le
    rwa [List.length_map] at hle
  have hfront : (text.take scheme.length).map asciiLower = scheme := by
    rw [List.map_take]
    exact (List.prefix_iff_eq_take.mp hstart).symm
  have htake : text.take (scheme.length + rest.length) = text.take scheme.length ++ rest := by
    rw [List.take_add, ← hrest]
    exact congrArg _ (List.prefix_iff_eq_take.mp (List.takeWhile_prefix _)).symm
  refine ⟨⟨text.take scheme.length, rest, htake, hfront.symm ▸ hscheme, hne, ?_⟩, ?_,
    text.drop (scheme.length + rest.length), (List.take_append_drop _ _).symm⟩
  · intro c hc
    rw [← hrest] at hc
    exact List.mem_takeWhile_imp hc
  · rw [htake, List.length_append, List.length_take_of_le hlen]

theorem extractedMatch_append (hfront : front.map asciiLower ∈ extractedSchemes) (hne : rest ≠ [])
    (hrest : ∀ c ∈ rest, isExtractedChar c = true)
    (hback : ∀ c, back.head? = some c → isExtractedChar c = false) :
    extractedMatch (front ++ rest ++ back) = some (front ++ rest, (front ++ rest).length) := by
  have hrun : ((front ++ rest ++ back).drop (front.map asciiLower).length).takeWhile
      isExtractedChar = rest := by
    rw [List.length_map, List.append_assoc, List.drop_left, List.takeWhile_append_of_pos hrest]
    cases back with
    | nil => exact List.append_nil rest
    | cons c back =>
        rw [List.takeWhile_cons, hback c rfl]
        exact List.append_nil rest
  have hstart : front.map asciiLower <+: (front ++ rest ++ back).map asciiLower := by
    rw [List.append_assoc, List.map_append]
    exact List.prefix_append _ _
  have hat : schemeMatch (front ++ rest ++ back) (front.map asciiLower) =
      some (front ++ rest, (front ++ rest).length) := by
    unfold schemeMatch
    rw [hrun, if_pos hstart]
    dsimp only
    rw [if_neg hne, List.length_map, ← List.length_append, List.take_left]
  unfold extractedMatch extractedSchemes
  rcases List.mem_cons.mp hfront with hscheme | hscheme
  · rw [hscheme] at hat
    rw [List.findSome?_cons, hat]
  · rw [List.mem_singleton.mp hscheme] at hat hstart
    have hsecure : ¬ ascii "https://" <+: (front ++ rest ++ back).map asciiLower := by
      intro hstart'
      have hclash : Clash (ascii "https://") (ascii "http://") := by decide
      exact (List.prefix_or_prefix_of_prefix hstart' hstart).elim hclash.1 hclash.2
    have hnone : schemeMatch (front ++ rest ++ back) (ascii "https://") = none := if_neg hsecure
    rw [List.findSome?_cons, hnone, List.findSome?_cons, hat]

theorem IsUrl.extractedMatch_append (h : IsUrl m)
    (hback : ∀ c, back.head? = some c → isExtractedChar c = false) :
    extractedMatch (m ++ back) = some (m, m.length) := by
  obtain ⟨front, rest, rfl, hfront, hne, hrest⟩ := h.exists_scheme
  exact SeenLinks.extractedMatch_append hfront hne hrest hback

theorem IsUrl.ne_nil (h : IsUrl m) : m ≠ [] := by
  obtain ⟨front, rest, rfl, -, hne, -⟩ := h.exists_scheme
  exact List.append_ne_nil_of_right_ne_nil front hne

theorem IsUrl.findAll (h : IsUrl m) : findAll extractedMatch m = [m] := by
  have hend : ∀ c, ([] : Text).head? = some c → isExtractedChar c = false := by
    intro c hc
    cases hc
  have hmatch : extractedMatch (m ++ []) = some (m, m.length) := h.extractedMatch_append hend
  have hfind := findAll_append_of_match hmatch h.ne_nil
  rwa [List.append_nil, findAll_nil] at hfind

theorem isUrl_of_mem_findAll (h : m ∈ findAll extractedMatch text) : IsUrl m := by
  obtain ⟨rest, n, -, hfound⟩ := exists_of_mem_findAll h
  exact (extractedMatch_eq_some hfound).1

theorem schemeMatch_append (front back : Text) {scheme : Text}
    (hscheme : scheme ∈ extractedSchemes) :
    schemeMatch (front ++ unit ' ' :: back) scheme = schemeMatch front scheme := by
  have hspace : unit ' ' ∉ scheme :=
    forall_of_all (p := fun scheme => unit ' ' ∉ scheme) (by decide) scheme hscheme
  have hlower : (front ++ unit ' ' :: back).map asciiLower =
      front.map asciiLower ++ unit ' ' :: back.map asciiLower := List.map_append
  unfold schemeMatch
  rw [hlower]
  by_cases hstart : scheme <+: front.map asciiLower
  · have hlen : scheme.length ≤ front.length := by
      have hle := hstart.length_le
      rwa [List.length_map] at hle
    have hrun : ((front ++ unit ' ' :: back).drop scheme.length).takeWhile isExtractedChar =
        (front.drop scheme.length).takeWhile isExtractedChar := by
      rw [List.drop_append_of_le_length hlen]
      exact takeWhile_append_cons rfl
    have hle : scheme.length + ((front.drop scheme.length).takeWhile isExtractedChar).length ≤
        front.length := by
      have hrest := (List.takeWhile_prefix isExtractedChar
        (l := front.drop scheme.length)).length_le
      rw [List.length_drop] at hrest
      omega
    rw [if_pos hstart, if_pos ((prefix_append_cons_iff hspace).mpr hstart), hrun]
    dsimp only
    rw [List.take_append_of_le_length hle]
  · rw [if_neg hstart, if_neg (mt (prefix_append_cons_iff hspace).mp hstart)]

theorem extractedMatch_space (front back : Text) :
    extractedMatch (front ++ unit ' ' :: back) = extractedMatch front := by
  have hsecure : ascii "https://" ∈ extractedSchemes := List.mem_cons_self
  have hplain : ascii "http://" ∈ extractedSchemes := List.mem_cons_of_mem _ List.mem_cons_self
  unfold extractedMatch extractedSchemes
  rw [List.findSome?_cons, List.findSome?_cons, schemeMatch_append front back hsecure,
    schemeMatch_append front back hplain]
  rfl

theorem findAll_append_space :
    findAll extractedMatch (front ++ unit ' ' :: back) =
      findAll extractedMatch front ++ findAll extractedMatch back := by
  have hstops : StopsAt extractedMatch front (unit ' ' :: back) := by
    refine ⟨fun c rest _ => extractedMatch_space (c :: rest) back, ?_⟩
    intro c rest m n _ hsome
    obtain ⟨hurl, rfl, back', heq⟩ := extractedMatch_eq_some hsome
    rw [heq, List.length_append]
    exact ⟨List.length_pos_iff.mpr hurl.ne_nil, Nat.le_add_right _ _⟩
  have hspace : extractedMatch (unit ' ' :: back) = none := extractedMatch_space [] back
  rw [findAll_append hstops, findAll_cons_of_none hspace]

end Extracted

/-! ## Bodies whose tags are stripped -/

section Strip

variable {IsTag : Text → Prop} {text shown more t : Text}

theorem tagMatch_of_ne {c : UInt16} (hc : c ≠ unit '<') : tagMatch (c :: text) = none := by
  unfold tagMatch
  rw [List.head?_cons, if_neg fun heq => hc (Option.some_inj.mp heq)]

theorem stripTags_of_notMem (h : unit '<' ∉ text) :
    stripTags (text ++ more) = text ++ stripTags more := by
  unfold stripTags
  refine replace_append_of_none ?_
  intro c rest hsuffix
  refine tagMatch_of_ne ?_
  rintro rfl
  exact h (hsuffix.subset List.mem_cons_self)

theorem stripTags_tag (h : TagShape t) : stripTags (t ++ more) = unit ' ' :: stripTags more := by
  obtain ⟨inner, rfl, hne, -, hclose⟩ := h
  have hinner : (inner ++ [unit '>'] ++ more).takeWhile (· ≠ unit '>') = inner := by
    rw [List.append_assoc]
    refine (takeWhile_append_cons (by decide)).trans ?_
    refine List.takeWhile_eq_self_iff.mpr ?_
    intro c hc
    refine decide_eq_true ?_
    rintro rfl
    exact hclose hc
  have hmatch : tagMatch (unit '<' :: (inner ++ [unit '>']) ++ more) =
      some ((), (unit '<' :: (inner ++ [unit '>'])).length) := by
    unfold tagMatch
    rw [List.cons_append, List.head?_cons, if_pos rfl, List.tail_cons, hinner]
    dsimp only
    have hend : ((inner ++ [unit '>'] ++ more).drop inner.length).head? = some (unit '>') := by
      rw [List.append_assoc, List.drop_left]
      rfl
    rw [if_pos ⟨hne, hend⟩, List.length_cons, List.length_append]
    rfl
  unfold stripTags
  rw [replace_append_of_match hmatch (List.cons_ne_nil _ _)]
  rfl

theorem shows_stripTags (h : Shows IsTag text shown) :
    ∃ s, (∀ more, stripTags (text ++ more) =
        s ++ stripTags more) ∧
      ∀ more shown', Reads references more shown' →
        Reads references (s ++ more) (shown ++ shown') := by
  induction h with
  | nil => exact ⟨[], fun _ => rfl, fun _ _ h => h⟩
  | @bare c text shown hc _ ih =>
      obtain ⟨s, hs, hreads⟩ := ih
      unfold isBare at hc
      simp only [Bool.and_eq_true, decide_eq_true_eq] at hc
      refine ⟨c :: s, fun more => ?_, fun more shown' h => .char hc.1.1 (hreads more shown' h)⟩
      have hskip : stripTags ([c] ++ (text ++ more)) =
          [c] ++ stripTags (text ++ more) :=
        stripTags_of_notMem fun hmem => hc.1.2 (List.mem_singleton.mp hmem).symm
      exact hskip.trans (congrArg (c :: ·) (hs more))
  | @reference e text shown he _ ih =>
      obtain ⟨s, hs, hreads⟩ := ih
      have hangle : unit '<' ∉ e.1 :=
        forall_of_all (p := fun e : Text × UInt16 => unit '<' ∉ e.1) (by decide) e he
      refine ⟨e.1 ++ s, fun more => ?_, fun more shown' h => ?_⟩
      · rw [List.append_assoc, stripTags_of_notMem hangle, hs more, List.append_assoc]
      · rw [List.append_assoc]
        exact .reference he (hreads more shown' h)
  | @tag t text shown ht hshape _ ih =>
      obtain ⟨s, hs, hreads⟩ := ih
      refine ⟨unit ' ' :: s, fun more => ?_, fun more shown' h => ?_⟩
      · rw [List.append_assoc, stripTags_tag hshape, hs more]
        rfl
      · exact .char (by decide) (hreads more shown' h)

theorem anchor_shape {url : Text} (hopen : unit '<' ∉ url) (hclose : unit '>' ∉ url) :
    TagShape (anchorStart ++ (url ++ anchorMiddle)) := by
  refine ⟨ascii "a href=\"" ++ (url ++ ascii "\" target=\"_blank\" rel=\"noopener noreferrer\""),
    ?_, List.cons_ne_nil _ _, ?_, ?_⟩
  · simp only [List.append_assoc]
    rfl
  · simp only [List.mem_append, not_or]
    exact ⟨by decide, hopen, by decide⟩
  · simp only [List.mem_append, not_or]
    exact ⟨by decide, hclose, by decide⟩

theorem stripTags_anchor {url : Text} (hopen : unit '<' ∉ url) (hclose : unit '>' ∉ url) :
    stripTags (anchorHtml url ++ more) = unit ' ' :: (url ++ unit ' ' :: stripTags more) := by
  have hend : TagShape anchorEnd := ⟨ascii "/a", rfl, by decide, by decide, by decide⟩
  have hsplit : anchorHtml url ++ more =
      anchorStart ++ (url ++ anchorMiddle) ++ (url ++ (anchorEnd ++ more)) := by
    unfold anchorHtml
    simp only [List.append_assoc]
  rw [hsplit, stripTags_tag (anchor_shape hopen hclose), stripTags_of_notMem hopen,
    stripTags_tag hend]

end Strip

/-! ## What a link shows -/

def shownChar (c : UInt16) : UInt16 := if c = 0 then 0xFFFD else c

/-- A link, what the extraction reads of it and what a browser does, which completes a reference
that is cut. -/
inductive HrefShows : Text → Text → Text → Prop
  | whole {href shown : Text} (h : Shows IsNoTag href shown) : HrefShows href shown shown
  | cut {e : Text × UInt16} {href shown : Text} (he : e ∈ references)
      (h : Shows IsNoTag href shown) :
      HrefShows (href ++ e.1.dropLast) (shown ++ e.1.dropLast) (shown ++ [e.2])

section Href

variable {href shown value more : Text} {reader : AttributeReader}

theorem exists_of_mem_cutReferences {name : Text} (h : name ∈ cutReferences) :
    ∃ e ∈ references, name = e.1.dropLast := by
  have hmap : cutReferences = references.map fun e => e.1.dropLast := by decide
  rw [hmap] at h
  obtain ⟨e, he, rfl⟩ := List.mem_map.mp h
  exact ⟨e, he, rfl⟩

theorem mem_cutReferences {e : Text × UInt16} (he : e ∈ references) :
    e.1.dropLast ∈ cutReferences := by
  have hmap : cutReferences = references.map fun e => e.1.dropLast := by decide
  rw [hmap]
  exact List.mem_map_of_mem he

theorem HrefShows.reads (h : HrefShows href shown value) {shown' : Text}
    (hmore : Reads references more shown') :
    Reads references (href ++ unit ' ' :: more) (shown ++ unit ' ' :: shown') := by
  have hwhole : ∀ {text read rest rest' : Text}, Shows IsNoTag text read →
      Reads references rest rest' → Reads references (text ++ rest) (read ++ rest') := by
    intro text read rest rest' htext hrest
    induction htext with
    | nil => exact hrest
    | bare hc _ ih =>
        unfold isBare at hc
        simp only [Bool.and_eq_true, decide_eq_true_eq] at hc
        exact .char hc.1.1 ih
    | reference he _ ih =>
        rw [List.append_assoc]
        exact .reference he ih
    | tag ht _ _ _ => exact ht.elim
  have hspace : Reads references (unit ' ' :: more) (unit ' ' :: shown') := .char (by decide) hmore
  cases h with
  | whole h => exact hwhole h hspace
  | cut he h =>
      have hcut := Reads.cut (mem_cutReferences he) hmore
      rw [List.append_assoc, List.append_assoc]
      rw [List.append_assoc, List.append_assoc] at hcut
      exact hwhole h hcut

theorem target_append (hcr : unit '\r' ∉ href) (h : Shows IsNoTag href shown) :
    reader.target (href ++ more) = shown.map shownChar ++ reader.target more := by
  induction h with
  | nil => rfl
  | @bare c href shown hc _ ih =>
      unfold isBare at hc
      simp only [Bool.and_eq_true, decide_eq_true_eq] at hc
      rw [List.mem_cons, not_or] at hcr
      rw [List.cons_append, List.map_cons, List.cons_append, ← ih hcr.2]
      unfold shownChar
      by_cases hnul : c = 0
      · rw [if_pos hnul, hnul]
        exact reader.target_nul _
      · rw [if_neg hnul]
        exact reader.target_cons c _ hc.1.1 hnul (Ne.symm hcr.1)
  | @reference e href shown he _ ih =>
      have hne : shownChar e.2 = e.2 :=
        forall_of_all (p := fun e : Text × UInt16 => shownChar e.2 = e.2) (by decide) e he
      rw [List.mem_append, not_or] at hcr
      rw [List.append_assoc, reader.target_reference e he, ih hcr.2, List.map_cons, hne]
      rfl
  | tag ht _ _ _ => exact ht.elim

theorem HrefShows.target (h : HrefShows href shown value) (hcr : unit '\r' ∉ href) :
    reader.target href = value.map shownChar := by
  cases h with
  | whole h =>
      have htarget : reader.target (href ++ []) = shown.map shownChar ++ reader.target [] :=
        target_append hcr h
      rwa [List.append_nil, reader.target_nil, List.append_nil] at htarget
  | @cut e href shown he h =>
      have hne : shownChar e.2 = e.2 :=
        forall_of_all (p := fun e : Text × UInt16 => shownChar e.2 = e.2) (by decide) e he
      rw [List.mem_append, not_or] at hcr
      rw [target_append hcr.1 h, reader.target_cut e he, List.map_append, List.map_singleton, hne]

end Href

/-! ## Links with what was put aside -/

section Restore

variable {stash : List Text} {url : Text}

def BeginWithTags (stash : List Text) : Prop := ∀ item ∈ stash, ∃ rest, item = unit '<' :: rest

theorem beginWithTags_draftStash (raw : Text) : BeginWithTags (draftStash raw) := by
  intro item hitem
  obtain ⟨⟨lang, body⟩, -, rfl⟩ := List.mem_map.mp hitem
  exact ⟨_, fenceHtml_eq lang body⟩

/-- What a part of a URL becomes: a text of references, with a tag behind it or not. -/
inductive Restored : Text → Prop
  | link {text shown : Text} (h : Shows IsNoTag text shown)
      (hchars : ∀ c ∈ text, isUrlChar c = true) : Restored text
  | broken {front shown : Text} (rest : Text) (h : Shows IsNoTag front shown)
      (hchars : ∀ c ∈ front, isUrlChar c = true) : Restored (front ++ unit '<' :: rest)

theorem Restored.append {front shown text : Text} (hfront : Shows IsNoTag front shown)
    (hchars : ∀ c ∈ front, isUrlChar c = true) (h : Restored text) : Restored (front ++ text) := by
  cases h with
  | link h htext =>
      exact .link (hfront.append h) (List.forall_mem_append.mpr ⟨hchars, htext⟩)
  | broken rest h htext =>
      rw [← List.append_assoc]
      exact .broken rest (hfront.append h) (List.forall_mem_append.mpr ⟨hchars, htext⟩)

theorem restored_of_parts (hstash : BeginWithTags stash) {parts : List (UInt16 ⊕ ℕ)}
    (h : Parts IsNoTag (fun _ => True) parts)
    (hchars : ∀ c, .inl c ∈ parts → isUrlChar c = true) :
    Restored
      (parts.flatMap (Sum.elim (fun c => [c]) fun index => (stash[index]?).getD [])) := by
  induction h with
  | nil => exact .link .nil (List.forall_mem_nil _)
  | @bare c parts hc _ ih =>
      have hhead : ∀ b ∈ [c], isUrlChar b = true :=
        List.forall_mem_singleton.mpr (hchars c List.mem_cons_self)
      rw [List.flatMap_cons]
      exact (ih fun b hb => hchars b (List.mem_cons_of_mem _ hb)).append (.bare hc .nil) hhead
  | @reference e parts he _ ih =>
      rw [List.flatMap_append, List.flatMap_map]
      have hsame : e.1.flatMap (fun c => [c]) = e.1 := List.flatMap_singleton' e.1
      refine (congrArg Restored (congrArg (· ++ _) hsame)).mpr ?_
      exact (ih fun b hb => hchars b (List.mem_append_right _ hb)).append (shows_reference he)
        (isUrlChar_of_mem_reference he)
  | tag ht _ _ _ => exact ht.elim
  | @found index parts _ _ ih =>
      have hrest := ih fun b hb => hchars b (List.mem_cons_of_mem _ hb)
      rw [List.flatMap_cons]
      cases hitem : stash[index]? with
      | none =>
          rw [Sum.elim_inr, hitem]
          exact hrest
      | some item =>
          obtain ⟨rest, rfl⟩ := hstash item (List.mem_of_getElem? hitem)
          rw [Sum.elim_inr, hitem]
          exact .broken _ .nil (List.forall_mem_nil _)

theorem restored_of_shows (hstash : BeginWithTags stash) {shown : Text}
    (h : Shows IsNoTag url shown) (hchars : ∀ c ∈ url, isUrlChar c = true) :
    Restored (restoreFences stash url) := by
  have hnul : Apart IsNoTag 0 := noTag_apart (by decide)
  refine restored_of_parts hstash (h.parts (fits_placeholderAt hnul) none) ?_
  intro c hc
  exact hchars c (mem_of_inl_mem_scan _ _ _ hc)

inductive RestoredLink : Text → Prop
  | link {href shown value : Text} (h : HrefShows href shown value)
      (hchars : ∀ c ∈ href, isUrlChar c = true) : RestoredLink href
  | broken {front shown : Text} (rest : Text) (h : Shows IsNoTag front shown)
      (hchars : ∀ c ∈ front, isUrlChar c = true) : RestoredLink (front ++ unit '<' :: rest)

theorem restoreFences_cut {e : Text × UInt16} (he : e ∈ references) (front : Text) :
    restoreFences stash (front ++ e.1.dropLast) = restoreFences stash front ++ e.1.dropLast := by
  have hshape : ∃ name, e.1.dropLast = unit '&' :: name := by
    have hall : references.all (fun e => e.1.dropLast = unit '&' :: e.1.dropLast.tail) = true := by
      decide
    exact ⟨_, of_decide_eq_true (List.all_eq_true.mp hall e he)⟩
  have hnul : (0 : UInt16) ∉ e.1.dropLast :=
    forall_of_all (p := fun e : Text × UInt16 => (0 : UInt16) ∉ e.1.dropLast) (by decide) e he
  have hname : restoreFences stash (e.1.dropLast ++ []) =
      e.1.dropLast ++ restoreFences stash [] := restoreFences_of_notMem hnul
  have hnil : restoreFences stash [] = [] := replace_nil
  rw [hnil, List.append_nil] at hname
  obtain ⟨name, hcons⟩ := hshape
  rw [hcons] at hname ⊢
  rw [restoreFences_append (by decide), hname]

theorem restored_link (hstash : BeginWithTags stash) (h : LinkText url) :
    RestoredLink (restoreFences stash url) := by
  rcases h.shows with ⟨x, hx⟩ | ⟨s, x, name, hname, rfl, hx⟩
  · have hurl := restored_of_shows hstash hx h.chars
    generalize restoreFences stash url = v at hurl
    cases hurl with
    | link hshows hchars => exact .link (.whole hshows) hchars
    | broken rest hshows hchars => exact .broken rest hshows hchars
  · obtain ⟨e, he, rfl⟩ := exists_of_mem_cutReferences hname
    have hs := restored_of_shows hstash hx fun c hc => h.chars c (List.mem_append_left _ hc)
    have hcut : ∀ c ∈ e.1.dropLast, isUrlChar c = true :=
      fun c hc => isUrlChar_of_mem_reference he c (List.mem_of_mem_dropLast hc)
    rw [restoreFences_cut he]
    generalize restoreFences stash s = v at hs
    cases hs with
    | link hshows hchars =>
        exact .link (.cut he hshows) (List.forall_mem_append.mpr ⟨hchars, hcut⟩)
    | broken rest hshows hchars =>
        rw [List.append_assoc]
        exact .broken _ hshows hchars

theorem scheme_restored (h : LinkText url) :
    ∃ scheme ∈ schemes, scheme <+: restoreFences stash url := by
  obtain ⟨scheme, hscheme, rest, rfl⟩ := h.scheme
  have hnul : (0 : UInt16) ∉ scheme :=
    forall_of_all (p := fun scheme : Text => (0 : UInt16) ∉ scheme) (by decide) scheme hscheme
  rw [restoreFences_of_notMem hnul]
  exact ⟨scheme, hscheme, List.prefix_append _ _⟩

end Restore

/-! ## Anchors of a body -/

section Anchors

variable {text shown more url : Text}

theorem anchorMatch_of_ne {c : UInt16} (hc : c ≠ unit '<') : anchorMatch (c :: text) = none := by
  have hstart : ¬ anchorStart <+: c :: text := fun h => hc (List.cons_prefix_cons.mp h).1.symm
  exact if_neg hstart

theorem findAll_anchorMatch_of_notMem (h : unit '<' ∉ text) :
    findAll anchorMatch (text ++ more) = findAll anchorMatch more := by
  refine findAll_append_of_none ?_
  intro c rest hsuffix
  refine anchorMatch_of_ne ?_
  rintro rfl
  exact h (hsuffix.subset List.mem_cons_self)

theorem outer_clash {t : Text} (ht : IsOuter t) : ¬ anchorStart <+: t ++ more := by
  rcases ht with ht | ht | ⟨lang, -, rfl⟩
  · exact (forall_of_all (p := fun t => Clash anchorStart t) (by decide) t ht).append more
  · exact (forall_of_all (p := fun t => Clash anchorStart t) (by decide) t ht).append more
  · have hclash : Clash anchorStart (ascii "<code class=\"language-") := by decide
    rw [List.append_assoc, List.append_assoc]
    exact hclash.append _

theorem findAll_anchorMatch_tag {t : Text} (ht : IsOuter t) (hshape : TagShape t) :
    findAll anchorMatch (t ++ more) = findAll anchorMatch more := by
  have hclash : ¬ anchorStart <+: t ++ more := outer_clash ht
  obtain ⟨inner, rfl, -, hopen, -⟩ := hshape
  have hnone : anchorMatch (unit '<' :: (inner ++ [unit '>'] ++ more)) = none := if_neg hclash
  have hinner : unit '<' ∉ inner ++ [unit '>'] := by
    rw [List.mem_append, not_or]
    exact ⟨hopen, by decide⟩
  rw [List.cons_append, findAll_cons_of_none hnone, findAll_anchorMatch_of_notMem hinner]

theorem findAll_anchorMatch_outer (h : Shows IsOuter text shown) :
    findAll anchorMatch (text ++ more) = findAll anchorMatch more := by
  induction h with
  | nil => rfl
  | @bare c text shown hc _ ih =>
      unfold isBare at hc
      simp only [Bool.and_eq_true, decide_eq_true_eq] at hc
      rw [List.cons_append, findAll_cons_of_none (anchorMatch_of_ne hc.1.2), ih]
  | @reference e text shown he _ ih =>
      have hangle : unit '<' ∉ e.1 :=
        forall_of_all (p := fun e : Text × UInt16 => unit '<' ∉ e.1) (by decide) e he
      rw [List.append_assoc, findAll_anchorMatch_of_notMem hangle, ih]
  | @tag t text shown ht hshape _ ih =>
      rw [List.append_assoc, findAll_anchorMatch_tag ht hshape, ih]

theorem findAll_anchorMatch_end :
    findAll anchorMatch (anchorEnd ++ more) = findAll anchorMatch more := by
  have hclash : Clash anchorStart anchorEnd := by decide
  have hnone : anchorMatch (unit '<' :: (ascii "/a>" ++ more)) = none :=
    if_neg (hclash.append more)
  exact (findAll_cons_of_none hnone).trans (findAll_anchorMatch_of_notMem (by decide))

theorem findAll_anchorMatch_anchor (url more : Text) :
    ∃ rest, findAll anchorMatch (anchorHtml url ++ more) =
      url.takeWhile (· ≠ unit '"') :: rest ∧
      (unit '<' ∉ url → unit '"' ∉ url → rest = findAll anchorMatch more) := by
  obtain ⟨tail, htail⟩ : ∃ tail, anchorMiddle = unit '"' :: tail := ⟨_, rfl⟩
  have hsplit : anchorHtml url ++ more =
      anchorStart ++ (url ++ unit '"' :: (tail ++ (url ++ (anchorEnd ++ more)))) := by
    unfold anchorHtml
    rw [htail]
    simp only [List.append_assoc, List.cons_append]
  generalize hinside : url ++ unit '"' :: (tail ++ (url ++ (anchorEnd ++ more))) = inside at hsplit
  have hvalue : inside.takeWhile (· ≠ unit '"') = url.takeWhile (· ≠ unit '"') := by
    rw [← hinside]
    exact takeWhile_append_cons (by decide)
  have hmatch : anchorMatch (anchorStart ++ inside.takeWhile (· ≠ unit '"') ++
      inside.dropWhile (· ≠ unit '"')) = some (inside.takeWhile (· ≠ unit '"'),
        (anchorStart ++ inside.takeWhile (· ≠ unit '"')).length) := by
    rw [List.append_assoc, List.takeWhile_append_dropWhile, List.length_append]
    unfold anchorMatch
    rw [if_pos (List.prefix_append _ _), List.drop_left]
  have hfind := findAll_append_of_match hmatch
    (List.append_ne_nil_of_left_ne_nil (by decide) _)
  rw [List.append_assoc, List.takeWhile_append_dropWhile, ← hsplit] at hfind
  refine ⟨findAll anchorMatch (inside.dropWhile (· ≠ unit '"')), hvalue ▸ hfind, ?_⟩
  intro hopen hquote
  have hall : ∀ c ∈ url, decide (c ≠ unit '"') = true := by
    intro c hc
    refine decide_eq_true ?_
    rintro rfl
    exact hquote hc
  have hdrop : inside.dropWhile (· ≠ unit '"') = anchorMiddle ++ (url ++ (anchorEnd ++ more)) := by
    rw [← hinside, List.dropWhile_append_of_pos hall, htail]
    rfl
  rw [hdrop, findAll_anchorMatch_of_notMem (by decide), findAll_anchorMatch_of_notMem hopen,
    findAll_anchorMatch_end]

end Anchors

/-! ## Links as they are seen -/

/-- A link whose placeholders are restored, what follows it, and what is seen of both. -/
structure SeenLink where
  href : Text
  outer : Text
  shown : Text
  value : Text
  gap : Text
  href_shows : HrefShows href shown value
  chars : ∀ c ∈ href, isUrlChar c = true
  scheme : ∃ scheme ∈ schemes, scheme <+: href
  outer_shows : Shows IsOuter outer gap

def linkHtmls (links : List (Text × Text)) : Text :=
  links.flatMap fun link => anchorHtml link.1 ++ link.2

section Seen

variable {reader : AttributeReader} {links : List SeenLink}

theorem SeenLink.notMem (link : SeenLink) {c : UInt16} (hc : isUrlChar c = false) :
    c ∉ link.href := by
  intro hmem
  rw [link.chars c hmem] at hc
  cases hc

theorem anchorTargets_seen (links : List SeenLink) :
    anchorTargets reader (linkHtmls (links.map fun link => (link.href, link.outer))) =
      links.map fun link => link.value.map shownChar := by
  have hfind : findAll anchorMatch (linkHtmls (links.map fun link => (link.href, link.outer))) =
      links.map (·.href) := by
    induction links with
    | nil => exact findAll_nil
    | cons link links ih =>
        obtain ⟨rest, hfind, hrest⟩ := findAll_anchorMatch_anchor link.href
          (link.outer ++ linkHtmls (links.map fun link => (link.href, link.outer)))
        have hquote : unit '"' ∉ link.href := link.notMem (by decide)
        have hvalue : link.href.takeWhile (· ≠ unit '"') = link.href := by
          refine List.takeWhile_eq_self_iff.mpr ?_
          intro c hc
          refine decide_eq_true ?_
          rintro rfl
          exact hquote hc
        have hhtml : linkHtmls ((link :: links).map fun link => (link.href, link.outer)) =
            anchorHtml link.href ++
              (link.outer ++ linkHtmls (links.map fun link => (link.href, link.outer))) := by
          unfold linkHtmls
          rw [List.map_cons, List.flatMap_cons, List.append_assoc]
        rw [hhtml, hfind, hvalue, hrest (link.notMem (by decide)) hquote,
          findAll_anchorMatch_outer link.outer_shows, ih]
        rfl
  unfold anchorTargets
  rw [hfind, List.map_map]
  refine List.map_congr_left ?_
  intro link _
  exact link.href_shows.target (link.notMem (by decide))

def seenText (links : List SeenLink) : Text :=
  links.flatMap fun link => unit ' ' :: (link.shown ++ unit ' ' :: link.gap)

theorem reads_seen (links : List SeenLink) :
    Reads references (stripTags (linkHtmls (links.map fun link => (link.href, link.outer))))
      (seenText links) := by
  induction links with
  | nil =>
      have hnil : stripTags (linkHtmls []) = [] := replace_nil
      rw [List.map_nil, hnil]
      exact .nil
  | cons link links ih =>
      obtain ⟨s, hs, hreads⟩ := shows_stripTags link.outer_shows
      have hhtml : linkHtmls ((link :: links).map fun link => (link.href, link.outer)) =
          anchorHtml link.href ++
            (link.outer ++ linkHtmls (links.map fun link => (link.href, link.outer))) := by
        unfold linkHtmls
        rw [List.map_cons, List.flatMap_cons, List.append_assoc]
      have hclose : unit '>' ∉ link.href := link.notMem (by decide)
      have hseen : seenText (link :: links) =
          unit ' ' :: (link.shown ++ unit ' ' :: (link.gap ++ seenText links)) := by
        unfold seenText
        rw [List.flatMap_cons, List.cons_append, List.append_assoc]
        rfl
      rw [hhtml, stripTags_anchor (link.notMem (by decide)) hclose, hs, hseen]
      exact .char (by decide) (link.href_shows.reads (hreads _ _ ih))

theorem findAll_seenText (links : List SeenLink) (front : Text) :
    findAll extractedMatch (front ++ seenText links) =
      findAll extractedMatch front ++ links.flatMap fun link =>
        findAll extractedMatch link.shown ++ findAll extractedMatch link.gap := by
  induction links generalizing front with
  | nil => 
      have hnil : seenText [] = [] := rfl
      rw [hnil, List.append_nil, List.flatMap_nil, List.append_nil]
  | cons link links ih =>
      have hseen : seenText (link :: links) =
          unit ' ' :: (link.shown ++ unit ' ' :: (link.gap ++ seenText links)) := by
        unfold seenText
        rw [List.flatMap_cons, List.cons_append, List.append_assoc]
        rfl
      rw [hseen, findAll_append_space, findAll_append_space, ih, List.flatMap_cons,
        List.append_assoc]

end Seen

end FancyMumble.Interface.SeenLinks
