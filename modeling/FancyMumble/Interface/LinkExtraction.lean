import FancyMumble.Interface.Sanitiser
import FancyMumble.Interface.WrittenLinks

/-!
# Links of a message body

The URLs that a reader's client takes out of a message body for previews, beside the links that the
sender's client wrote into it.
-/

namespace FancyMumble.Interface.LinkExtraction

open Interface.MarkdownHtml Interface.MarkdownUrls
open Interface.Sanitiser (asciiLower)
open Interface.WrittenHtml Interface.WrittenLinks
open Lib.Json Lib.Occurrences Lib.Scanning

/-! ## The extraction -/

def tagMatch (text : Text) : Option (Unit × ℕ) :=
  if text.head? = some (unit '<') then
    let inner := text.tail.takeWhile (· ≠ unit '>')
    if inner ≠ [] ∧ (text.tail.drop inner.length).head? = some (unit '>') then
      some ((), inner.length + 2)
    else none
  else none

def stripTags (body : Text) : Text := replace tagMatch (fun _ => [unit ' ']) body

def isHexDigit (c : UInt16) : Bool := (hexValue c).isSome

def numberMatch (mark : Text) (isNumeral : UInt16 → Bool) (value : Text → ℕ) (text : Text) :
    Option (ℕ × ℕ) :=
  if mark <+: text then
    let digits := (text.drop mark.length).takeWhile isNumeral
    if digits ≠ [] ∧ (text.drop (mark.length + digits.length)).head? = some (unit ';') then
      some (value digits, mark.length + digits.length + 1)
    else none
  else none

def hexMatch (text : Text) : Option (ℕ × ℕ) :=
  let value := fun digits : Text => digits.foldl (fun n c => 16 * n + (hexValue c).getD 0) 0
  (numberMatch (ascii "&#x") isHexDigit value text).or
    (numberMatch (ascii "&#X") isHexDigit value text)

def decMatch (text : Text) : Option (ℕ × ℕ) := numberMatch (ascii "&#") isDigit number text

def fromCodePoint (n : ℕ) : Option Text :=
  if 0x10FFFF < n then none
  else if n < 0x10000 then some [n.toUInt16]
  else
    some [(0xD800 + (n - 0x10000) / 0x400).toUInt16, (0xDC00 + (n - 0x10000) % 0x400).toUInt16]

def replaceOrThrow (r : Text → Option (ℕ × ℕ)) (out : ℕ → Option Text) (text : Text) :
    Option Text :=
  if (findAll r text).all fun n => (out n).isSome then
    some (replace r (fun n => (out n).getD []) text)
  else none

def literalMatch (pattern text : Text) : Option (Unit × ℕ) :=
  if pattern <+: text then some ((), pattern.length) else none

def namedEntities : List (Text × UInt16) :=
  [(ascii "&quot;", unit '"'), (ascii "&apos;", 0x27), (ascii "&lt;", unit '<'),
    (ascii "&gt;", unit '>'), (ascii "&nbsp;", unit ' '), (ascii "&amp;", unit '&')]

def replaceNamed (text : Text) (e : Text × UInt16) : Text :=
  replace (literalMatch e.1) (fun _ => [e.2]) text

def decodeHtmlEntities (input : Text) : Option Text :=
  if unit '&' ∉ input then some input
  else do
    let text ← replaceOrThrow hexMatch fromCodePoint input
    let text ← replaceOrThrow decMatch fromCodePoint text
    return namedEntities.foldl replaceNamed text

def isExtractedChar (c : UInt16) : Bool := !isSpace c && c ∉ ascii "<>\"')]"

def extractedSchemes : List Text := [ascii "https://", ascii "http://"]

def schemeMatch (text scheme : Text) : Option (Text × ℕ) :=
  if scheme <+: text.map asciiLower then
    let rest := (text.drop scheme.length).takeWhile isExtractedChar
    if rest = [] then none
    else some (text.take (scheme.length + rest.length), scheme.length + rest.length)
  else none

def extractedMatch (text : Text) : Option (Text × ℕ) :=
  extractedSchemes.findSome? (schemeMatch text)

def extractUrlsFromMessage (body : Text) : Option (List Text) :=
  (decodeHtmlEntities (stripTags body)).map (findAll extractedMatch)

/-! ## The links of a body -/

/-- How a browser reads the value of an attribute, as far as what escaping writes goes. -/
structure AttributeReader where
  target : Text → Text
  target_nil : target [] = []
  target_cons : ∀ c text, c ≠ unit '&' → c ≠ 0 → c ≠ unit '\r' →
    target (c :: text) = c :: target text
  target_nul : ∀ text, target (0 :: text) = 0xFFFD :: target text
  target_reference : ∀ e ∈ references, ∀ text, target (e.1 ++ text) = e.2 :: target text
  target_cut : ∀ e ∈ references, target e.1.dropLast = [e.2]

def anchorMatch (text : Text) : Option (Text × ℕ) :=
  if anchorStart <+: text then
    let value := (text.drop anchorStart.length).takeWhile (· ≠ unit '"')
    some (value, anchorStart.length + value.length)
  else none

def anchorTargets (reader : AttributeReader) (html : Text) : List Text :=
  (findAll anchorMatch html).map reader.target

/-! ## Bodies that throw -/

theorem isSome_fromCodePoint_iff {n : ℕ} : (fromCodePoint n).isSome ↔ n ≤ 0x10FFFF := by
  unfold fromCodePoint
  by_cases hn : 0x10FFFF < n
  · rw [if_pos hn]
    exact iff_of_false Bool.false_ne_true (Nat.not_le_of_lt hn)
  · rw [if_neg hn]
    refine iff_of_true ?_ (Nat.le_of_not_lt hn)
    split <;> rfl

theorem replaceOrThrow_eq (r : Text → Option (ℕ × ℕ)) (text : Text) :
    (∀ n ∈ findAll r text, n ≤ 0x10FFFF) ∧
        replaceOrThrow r fromCodePoint text =
          some (replace r (fun n => (fromCodePoint n).getD []) text) ∨
      ¬ (∀ n ∈ findAll r text, n ≤ 0x10FFFF) ∧ replaceOrThrow r fromCodePoint text = none := by
  have hall : ((findAll r text).all fun n => (fromCodePoint n).isSome) = true ↔
      ∀ n ∈ findAll r text, n ≤ 0x10FFFF := by
    rw [List.all_eq_true]
    exact forall₂_congr fun n _ => isSome_fromCodePoint_iff
  unfold replaceOrThrow
  by_cases h : ((findAll r text).all fun n => (fromCodePoint n).isSome) = true
  · exact .inl ⟨hall.mp h, if_pos h⟩
  · exact .inr ⟨mt hall.mpr h, if_neg h⟩

def hexDecoded (body : Text) : Text :=
  replace hexMatch (fun n => (fromCodePoint n).getD []) (stripTags body)

/-- No reference by number is beyond the last code point, nor is one that hexadecimal references
make. -/
def ReferencesInRange (body : Text) : Prop :=
  (∀ n ∈ findAll hexMatch (stripTags body), n ≤ 0x10FFFF) ∧
    ∀ n ∈ findAll decMatch (hexDecoded body), n ≤ 0x10FFFF

theorem head_of_numberMatch {mark : Text} {isNumeral : UInt16 → Bool} {value : Text → ℕ}
    {c : UInt16} {text : Text} (hmark : mark.head? = some (unit '&'))
    (h : numberMatch mark isNumeral value (c :: text) ≠ none) : c = unit '&' := by
  unfold numberMatch at h
  by_cases hstart : mark <+: c :: text
  · obtain ⟨mark, rfl⟩ := List.head?_eq_some_iff.mp hmark
    exact (List.cons_prefix_cons.mp hstart).1.symm
  · rw [if_neg hstart] at h
    exact absurd rfl h

theorem hexMatch_of_ne {c : UInt16} {text : Text} (hc : c ≠ unit '&') :
    hexMatch (c :: text) = none := by
  unfold hexMatch
  rw [Option.or_eq_none_iff]
  constructor
  · by_contra hne
    exact hc (head_of_numberMatch rfl hne)
  · by_contra hne
    exact hc (head_of_numberMatch rfl hne)

theorem decMatch_of_ne {c : UInt16} {text : Text} (hc : c ≠ unit '&') :
    decMatch (c :: text) = none := by
  by_contra hne
  exact hc (head_of_numberMatch rfl hne)

theorem find_of_notMem {β : Type} {r : Text → Option (β × ℕ)} {text : Text}
    (hr : ∀ c rest, c ≠ unit '&' → r (c :: rest) = none) (h : unit '&' ∉ text) :
    find r text = text.map .inl := by
  refine find_of_none ?_
  intro c hc rest
  refine hr c rest ?_
  rintro rfl
  exact h hc

theorem extractUrlsFromMessage_isSome_iff (body : Text) :
    (extractUrlsFromMessage body).isSome ↔ ReferencesInRange body := by
  unfold extractUrlsFromMessage decodeHtmlEntities ReferencesInRange hexDecoded
  rw [Option.isSome_map]
  by_cases hamp : unit '&' ∉ stripTags body
  · have hhex : ∀ (c : UInt16) (rest : Text), c ≠ unit '&' → hexMatch (c :: rest) = none :=
      fun _ _ => hexMatch_of_ne
    have hdec : ∀ (c : UInt16) (rest : Text), c ≠ unit '&' → decMatch (c :: rest) = none :=
      fun _ _ => decMatch_of_ne
    rw [if_pos hamp, replace_of_find_eq (find_of_notMem hhex hamp),
      findAll_of_find_eq (find_of_notMem hhex hamp), findAll_of_find_eq (find_of_notMem hdec hamp)]
    exact iff_of_true rfl ⟨List.forall_mem_nil _, List.forall_mem_nil _⟩
  · rw [if_neg hamp]
    rcases replaceOrThrow_eq hexMatch (stripTags body) with ⟨hhex, heq⟩ | ⟨hhex, heq⟩
    · rw [heq]
      dsimp only [Option.bind_eq_bind, Option.bind_some]
      rcases replaceOrThrow_eq decMatch (replace hexMatch (fun n => (fromCodePoint n).getD [])
        (stripTags body)) with ⟨hdec, heq'⟩ | ⟨hdec, heq'⟩
      · rw [heq']
        exact iff_of_true rfl ⟨hhex, hdec⟩
      · rw [heq']
        exact iff_of_false Bool.false_ne_true fun h => hdec h.2
    · rw [heq]
      exact iff_of_false Bool.false_ne_true fun h => hhex h.1

/-! ## Bodies that are decoded -/

/-- A text without tags, in which some references are still to be read. One that is cut is not read,
and a space follows it. -/
inductive Reads (es : List (Text × UInt16)) : Text → Text → Prop
  | nil : Reads es [] []
  | char {c : UInt16} {text shown : Text} (hc : c ≠ unit '&') (h : Reads es text shown) :
      Reads es (c :: text) (c :: shown)
  | reference {e : Text × UInt16} {text shown : Text} (he : e ∈ es) (h : Reads es text shown) :
      Reads es (e.1 ++ text) (e.2 :: shown)
  | cut {name text shown : Text} (hname : name ∈ cutReferences) (h : Reads es text shown) :
      Reads es (name ++ [unit ' '] ++ text) (name ++ [unit ' '] ++ shown)

def Clash (pattern text : Text) : Prop := ¬ pattern <+: text ∧ ¬ text <+: pattern

instance (pattern text : Text) : Decidable (Clash pattern text) := by
  unfold Clash
  infer_instance

theorem Clash.append {pattern text : Text} (h : Clash pattern text) (more : Text) :
    ¬ pattern <+: text ++ more := by
  intro hstart
  exact (List.prefix_or_prefix_of_prefix hstart (List.prefix_append text more)).elim h.1 h.2

def BeginsWith {β : Type} (r : Text → Option (β × ℕ)) (pattern : Text) : Prop :=
  ∀ text, r text ≠ none → pattern <+: text

section Reads

variable {β : Type} {es : List (Text × UInt16)} {text shown pattern : Text}
  {r : Text → Option (β × ℕ)} {out : β → Text}

theorem find_ampersand {front back : Text} (hr : BeginsWith r (unit '&' :: pattern))
    (hclash : Clash (unit '&' :: pattern) (unit '&' :: front)) (hamp : unit '&' ∉ front) :
    find r (unit '&' :: front ++ back) = (unit '&' :: front).map .inl ++ find r back := by
  refine find_append_of_none ?_
  intro c rest hsuffix
  by_contra hne
  have hstart := hr _ hne
  rcases List.suffix_cons_iff.mp hsuffix with heq | hinside
  · obtain ⟨rfl, rfl⟩ := List.cons_eq_cons.mp heq
    exact hclash.append back hstart
  · obtain ⟨rfl, -⟩ := List.cons_prefix_cons.mp hstart
    exact hamp (hinside.subset List.mem_cons_self)

theorem BeginsWith.find_char {c : UInt16} (hr : BeginsWith r (unit '&' :: pattern))
    (hc : c ≠ unit '&') : find r (c :: text) = .inl c :: find r text := by
  refine find_cons_of_none ?_
  by_contra hne
  exact hc (List.cons_prefix_cons.mp (hr _ hne)).1.symm

theorem cons_of_reference {e : Text × UInt16} (he : e ∈ references) :
    ∃ name, e.1 = unit '&' :: name ∧ unit '&' ∉ name := by
  have hall : references.all (fun e =>
      e.1 = unit '&' :: e.1.tail ∧ unit '&' ∉ e.1.tail) = true := by decide
  exact ⟨e.1.tail, of_decide_eq_true (List.all_eq_true.mp hall e he)⟩

theorem cons_of_cut {name : Text} (hname : name ∈ cutReferences) :
    ∃ rest, name ++ [unit ' '] = unit '&' :: rest ∧ unit '&' ∉ rest := by
  have hall : cutReferences.all (fun name =>
      name ++ [unit ' '] = unit '&' :: (name ++ [unit ' ']).tail ∧
        unit '&' ∉ (name ++ [unit ' ']).tail) = true := by decide
  exact ⟨(name ++ [unit ' ']).tail, of_decide_eq_true (List.all_eq_true.mp hall name hname)⟩

structure PassesOver (r : Text → Option (β × ℕ)) (pattern : Text)
    (es : List (Text × UInt16)) : Prop where
  begins : BeginsWith r (unit '&' :: pattern)
  subset : es ⊆ references
  reference : ∀ e ∈ es, Clash (unit '&' :: pattern) e.1
  cut : ∀ name ∈ cutReferences, Clash (unit '&' :: pattern) (name ++ [unit ' '])

theorem PassesOver.find_reference (hr : PassesOver r pattern es) {e : Text × UInt16}
    (he : e ∈ es) : find r (e.1 ++ text) = e.1.map .inl ++ find r text := by
  have hclash := hr.reference e he
  obtain ⟨name, hname, hamp⟩ := cons_of_reference (hr.subset he)
  rw [hname] at hclash ⊢
  exact find_ampersand hr.begins hclash hamp

theorem PassesOver.find_cut (hr : PassesOver r pattern es) {name : Text}
    (hname : name ∈ cutReferences) :
    find r (name ++ [unit ' '] ++ text) = (name ++ [unit ' ']).map .inl ++ find r text := by
  have hclash := hr.cut name hname
  obtain ⟨rest, hrest, hamp⟩ := cons_of_cut hname
  rw [hrest] at hclash ⊢
  exact find_ampersand hr.begins hclash hamp

theorem PassesOver.find_eq (hr : PassesOver r pattern es) (h : Reads es text shown) :
    find r text = text.map .inl := by
  induction h with
  | nil => exact find_nil
  | char hc _ ih =>
      rw [hr.begins.find_char hc, ih]
      rfl
  | reference he _ ih => rw [hr.find_reference he, ih, List.map_append]
  | cut hname _ ih => rw [hr.find_cut hname, ih, ← List.map_append]

end Reads

/-! ### One reference after the other -/

section Named

variable {es : List (Text × UInt16)} {text shown : Text} {e : Text × UInt16}

theorem beginsWith_literalMatch (pattern : Text) : BeginsWith (literalMatch pattern) pattern := by
  intro text hne
  unfold literalMatch at hne
  by_contra hstart
  rw [if_neg hstart] at hne
  exact hne rfl

theorem replaceNamed_reference (hne : e.1 ≠ []) :
    replaceNamed (e.1 ++ text) e = e.2 :: replaceNamed text e := by
  unfold replaceNamed
  have hmatch : literalMatch e.1 (e.1 ++ text) = some ((), e.1.length) :=
    if_pos (List.prefix_append _ _)
  rw [replace_append_of_match hmatch hne]
  rfl

theorem Reads.replaceNamed (hsub : e :: es ⊆ references) (hamp : e.2 ≠ unit '&')
    (hes : ∀ e' ∈ es, Clash e.1 e'.1)
    (hcut : ∀ name ∈ cutReferences, Clash e.1 (name ++ [unit ' ']))
    (h : Reads (e :: es) text shown) :
    Reads es (LinkExtraction.replaceNamed text e) shown := by
  obtain ⟨pattern, hpattern, -⟩ := cons_of_reference (hsub List.mem_cons_self)
  have hpasses : PassesOver (literalMatch e.1) pattern es := by
    refine ⟨?_, fun e' he' => hsub (List.mem_cons_of_mem _ he'), ?_, ?_⟩
    · rw [← hpattern]
      exact beginsWith_literalMatch e.1
    · rw [← hpattern]
      exact hes
    · rw [← hpattern]
      exact hcut
  induction h with
  | nil =>
      unfold LinkExtraction.replaceNamed
      rw [replace_nil]
      exact .nil
  | @char c text shown hc h ih =>
      have hskip : LinkExtraction.replaceNamed (c :: text) e =
          c :: LinkExtraction.replaceNamed text e := by
        have hfind : find (literalMatch e.1) ([c] ++ text) =
            [c].map .inl ++ find (literalMatch e.1) text := hpasses.begins.find_char hc
        exact replace_of_find hfind
      rw [hskip]
      exact .char hc ih
  | @reference e' text shown he' h ih =>
      rcases List.mem_cons.mp he' with rfl | he'
      · rw [replaceNamed_reference (by rw [hpattern]; exact List.cons_ne_nil _ _)]
        exact .char hamp ih
      · have hskip : LinkExtraction.replaceNamed (e'.1 ++ text) e =
            e'.1 ++ LinkExtraction.replaceNamed text e :=
          replace_of_find (hpasses.find_reference he')
        rw [hskip]
        exact .reference he' ih
  | @cut name text shown hname h ih =>
      have hskip : LinkExtraction.replaceNamed (name ++ [unit ' '] ++ text) e =
          name ++ [unit ' '] ++ LinkExtraction.replaceNamed text e :=
        replace_of_find (hpasses.find_cut hname)
      rw [hskip]
      exact .cut hname ih

theorem Reads.replaceNamed_last (h : Reads [(ascii "&amp;", unit '&')] text shown) :
    LinkExtraction.replaceNamed text (ascii "&amp;", unit '&') = shown := by
  have hpasses : PassesOver (literalMatch (ascii "&amp;")) (ascii "amp;") [] :=
    ⟨beginsWith_literalMatch _, List.nil_subset _, List.forall_mem_nil _, forall_of_all (by decide)⟩
  induction h with
  | nil => exact replace_nil
  | @char c text shown hc h ih =>
      have hfind : find (literalMatch (ascii "&amp;")) ([c] ++ text) =
          [c].map .inl ++ find (literalMatch (ascii "&amp;")) text := hpasses.begins.find_char hc
      rw [← ih]
      exact replace_of_find hfind
  | @reference e text shown he h ih =>
      obtain rfl := List.mem_singleton.mp he
      rw [replaceNamed_reference (List.cons_ne_nil _ _), ih]
  | @cut name text shown hname h ih =>
      rw [← ih]
      exact replace_of_find (hpasses.find_cut hname)

theorem Reads.replaceNamed_other {pattern : Text} {c : UInt16}
    (hpasses : PassesOver (literalMatch (unit '&' :: pattern)) pattern es)
    (h : Reads es text shown) : LinkExtraction.replaceNamed text (unit '&' :: pattern, c) = text :=
  replace_of_find_eq (hpasses.find_eq h)

theorem beginsWith_numberMatch {mark : Text} {isNumeral : UInt16 → Bool} {value : Text → ℕ} :
    BeginsWith (numberMatch mark isNumeral value) mark := by
  intro text hne
  unfold numberMatch at hne
  by_contra hstart
  rw [if_neg hstart] at hne
  exact hne rfl

theorem beginsWith_hexMatch : BeginsWith hexMatch (ascii "&#") := by
  intro text hne
  unfold hexMatch at hne
  rw [Ne, Option.or_eq_none_iff, not_and_or] at hne
  rcases hne with hne | hne
  · exact (List.prefix_append (ascii "&#") (ascii "x")).trans (beginsWith_numberMatch text hne)
  · exact (List.prefix_append (ascii "&#") (ascii "X")).trans (beginsWith_numberMatch text hne)

theorem beginsWith_decMatch : BeginsWith decMatch (ascii "&#") := by
  unfold decMatch
  exact beginsWith_numberMatch

theorem passesOver_number {r : Text → Option (ℕ × ℕ)} (hr : BeginsWith r (ascii "&#")) :
    PassesOver r (ascii "#") references :=
  ⟨hr, List.Subset.refl _, forall_of_all (by decide), forall_of_all (by decide)⟩

theorem replaceOrThrow_of_find_eq {r : Text → Option (ℕ × ℕ)} {out : ℕ → Option Text}
    (h : find r text = text.map .inl) : replaceOrThrow r out text = some text := by
  unfold replaceOrThrow
  rw [findAll_of_find_eq h, replace_of_find_eq h]
  rfl

theorem Reads.mono {es' : List (Text × UInt16)} (h : Reads es text shown) (hsub : es ⊆ es') :
    Reads es' text shown := by
  induction h with
  | nil => exact .nil
  | char hc _ ih => exact .char hc ih
  | reference he _ ih => exact .reference (hsub he) ih
  | cut hname _ ih => exact .cut hname ih

theorem Reads.eq_of_notMem (hsub : es ⊆ references) (h : Reads es text shown)
    (hamp : unit '&' ∉ text) : text = shown := by
  induction h with
  | nil => rfl
  | char _ _ ih =>
      rw [List.mem_cons, not_or] at hamp
      rw [ih hamp.2]
  | reference he _ _ =>
      obtain ⟨name, hname, -⟩ := cons_of_reference (hsub he)
      rw [hname] at hamp
      exact absurd List.mem_cons_self hamp
  | cut hname _ _ =>
      obtain ⟨rest, hrest, -⟩ := cons_of_cut hname
      rw [hrest] at hamp
      exact absurd List.mem_cons_self hamp

theorem Reads.foldl_replaceNamed (h : Reads references text shown) :
    namedEntities.foldl LinkExtraction.replaceNamed text = shown := by
  have hother : ∀ (pattern : Text) (es : List (Text × UInt16)), es ⊆ references →
      (es.all fun e => Clash (unit '&' :: pattern) e.1) = true →
      (cutReferences.all fun name => Clash (unit '&' :: pattern) (name ++ [unit ' '])) = true →
      PassesOver (literalMatch (unit '&' :: pattern)) pattern es :=
    fun pattern es hsub hes hcut =>
      ⟨beginsWith_literalMatch _, hsub, forall_of_all hes, forall_of_all hcut⟩
  have hlt : Reads [(ascii "&lt;", unit '<'), (ascii "&gt;", unit '>'), (ascii "&amp;", unit '&')]
      text shown := h.mono (by decide)
  have hgt := hlt.replaceNamed (by decide) (by decide) (forall_of_all (by decide))
    (forall_of_all (by decide))
  have hamp := hgt.replaceNamed (by decide) (by decide) (forall_of_all (by decide))
    (forall_of_all (by decide))
  have hquot : LinkExtraction.replaceNamed text (ascii "&quot;", unit '"') = text :=
    h.replaceNamed_other (hother (ascii "quot;") _ (List.Subset.refl _) (by decide) (by decide))
  have hapos : LinkExtraction.replaceNamed text (ascii "&apos;", 0x27) = text :=
    h.replaceNamed_other (hother (ascii "apos;") _ (List.Subset.refl _) (by decide) (by decide))
  have hnbsp := hamp.replaceNamed_other (c := unit ' ')
    (hother (ascii "nbsp;") _ (by decide) (by decide) (by decide))
  unfold namedEntities
  rw [List.foldl_cons, hquot, List.foldl_cons, hapos, List.foldl_cons, List.foldl_cons,
    List.foldl_cons, List.foldl_cons, List.foldl_nil]
  rw [← hamp.replaceNamed_last]
  exact congrArg (LinkExtraction.replaceNamed · _) hnbsp

theorem Reads.decodeHtmlEntities (h : Reads references text shown) :
    decodeHtmlEntities text = some shown := by
  have hhex : replaceOrThrow hexMatch fromCodePoint text = some text :=
    replaceOrThrow_of_find_eq ((passesOver_number beginsWith_hexMatch).find_eq h)
  have hdec : replaceOrThrow decMatch fromCodePoint text = some text :=
    replaceOrThrow_of_find_eq ((passesOver_number beginsWith_decMatch).find_eq h)
  unfold LinkExtraction.decodeHtmlEntities
  by_cases hamp : unit '&' ∉ text
  · rw [if_pos hamp, h.eq_of_notMem (List.Subset.refl _) hamp]
  · rw [if_neg hamp, hhex]
    dsimp only [Option.bind_eq_bind, Option.bind_some]
    rw [hdec, ← h.foldl_replaceNamed]
    rfl

end Named

end FancyMumble.Interface.LinkExtraction
