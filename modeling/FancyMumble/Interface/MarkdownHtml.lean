import FancyMumble.Interface.MarkdownUrls
import FancyMumble.Lib.Scanning

/-!
# From Markdown to HTML

How a draft becomes the body of a message: characters are escaped, fenced blocks are put aside, the
marks of the other formats are replaced by tags one format after the other, and URLs become links.
-/

namespace FancyMumble.Interface.MarkdownHtml

open Interface.MarkdownUrls
open Lib.Json Lib.Occurrences Lib.Scanning

/-! ## Escaping -/

def escapeChar (c : UInt16) : Text :=
  if c = unit '&' then ascii "&amp;"
  else if c = unit '<' then ascii "&lt;"
  else if c = unit '>' then ascii "&gt;"
  else [c]

def escapeHtml (raw : Text) : Text := raw.flatMap escapeChar

/-! ## Fenced blocks -/

def isLangChar (c : UInt16) : Bool :=
  (unit 'a' ≤ c && c ≤ unit 'z') || (unit 'A' ≤ c && c ≤ unit 'Z') || isDigit c ||
    c ∈ ascii "_+-"

def fenceAt (text : Text) : Option ((Text × Text) × ℕ) :=
  if ascii "```" <+: text then
    let lang := (text.drop 3).takeWhile isLangChar
    let rest := text.drop (3 + lang.length)
    if rest.head? = some (unit '\n') then
      (Lib.Occurrences.indexOf (ascii "```") (rest.drop 1)).map fun length =>
        ((lang, (rest.drop 1).take length), 3 + lang.length + 1 + length + 3)
    else none
  else none

def trimFence (body : Text) : Text :=
  if body.getLast? = some (unit '\n') then body.dropLast else body

def fenceHtml (block : Text × Text) : Text :=
  ascii "<pre><code" ++
    (if block.1 = [] then [] else ascii " class=\"language-" ++ block.1 ++ ascii "\"") ++
    ascii ">" ++ trimFence block.2 ++ ascii "</code></pre>"

def decimal (n : ℕ) : Text := (Nat.toDigits 10 n).map unit

def placeholder (index : ℕ) : Text := 0 :: ascii "FENCE" ++ decimal index ++ [0]

def stashFences (html : Text) : Text :=
  fill (fun index _ => placeholder index) 0 (find fenceAt html)

def fenceStash (html : Text) : List Text := (findAll fenceAt html).map fenceHtml

/-! ## Formats -/

def isLineTerminator (c : UInt16) : Bool := c ∈ [0x0A, 0x0D, 0x2028, 0x2029]

/-- The length of the shortest text within a line, of one character or more, behind which a mark
closes. The mark is asked about the last character before it and the text behind that. -/
def lazyLength (closes : UInt16 → Text → Bool) : Text → Option ℕ
  | [] => none
  | c :: text =>
      if isLineTerminator c then none
      else if closes c text then some 1
      else (lazyLength closes text).map (· + 1)

structure Format where
  mark : Text
  opens : Option UInt16 → Text → Bool
  closes : UInt16 → Text → Bool
  openTag : Text
  closeTag : Text

def formatAt (format : Format) : Rule UInt16 Text := fun before text =>
  if format.mark <+: text ∧ format.opens before (text.drop format.mark.length) then
    (lazyLength format.closes (text.drop format.mark.length)).map fun length =>
      ((text.drop format.mark.length).take length,
        format.mark.length + length + format.mark.length)
  else none

def applyFormat (format : Format) (html : Text) : Text :=
  (scan (formatAt format) none html).flatMap
    (Sum.elim (fun c => [c]) fun inner => format.openTag ++ inner ++ format.closeTag)

def plainFormat (mark openTag closeTag : Text) : Format where
  mark
  opens := fun _ _ => true
  closes := fun _ rest => mark <+: rest
  openTag
  closeTag

def bold : Format := plainFormat (ascii "**") (ascii "<b>") (ascii "</b>")

def italic : Format where
  mark := ascii "*"
  opens := fun before rest => before ≠ some (unit '*') ∧ rest.head? ≠ some (unit '*')
  closes := fun last rest =>
    last ≠ unit '*' ∧ rest.head? = some (unit '*') ∧ rest.tail.head? ≠ some (unit '*')
  openTag := ascii "<i>"
  closeTag := ascii "</i>"

def underline : Format := plainFormat (ascii "__") (ascii "<u>") (ascii "</u>")

def strikethrough : Format := plainFormat (ascii "~~") (ascii "<s>") (ascii "</s>")

def spoiler : Format :=
  plainFormat (ascii "||") (ascii "<span class=\"spoiler\">") (ascii "</span>")

def codeAt (text : Text) : Option (Text × ℕ) :=
  if text.head? = some (unit '`') then
    let inner := text.tail.takeWhile (· ≠ unit '`')
    if inner ≠ [] ∧ (text.drop (1 + inner.length)).head? = some (unit '`') then
      some (inner, 1 + inner.length + 1)
    else none
  else none

def codeHtml (inner : Text) : Text := ascii "<code>" ++ inner ++ ascii "</code>"

def applyFormats (html : Text) : Text :=
  [bold, italic, underline, strikethrough, spoiler].foldl
    (fun html format => applyFormat format html) (replace codeAt codeHtml html)

/-! ## Links -/

def urlMatch (text : Text) : Option (Text × ℕ) := (urlAt text).map fun n => (text.take n, n)

def escapeQuotes (url : Text) : Text :=
  url.flatMap fun c => if c = unit '"' then ascii "&quot;" else [c]

def anchorStart : Text := ascii "<a href=\""

def anchorMiddle : Text := ascii "\" target=\"_blank\" rel=\"noopener noreferrer\">"

def anchorEnd : Text := ascii "</a>"

def linkHtml (raw : Text) : Text :=
  let url := trimTrailingPunctuation raw
  let trail := raw.drop url.length
  anchorStart ++ escapeQuotes url ++ anchorMiddle ++ escapeQuotes url ++ anchorEnd ++ trail

def linkify (html : Text) : Text := replace urlMatch linkHtml html

/-! ## Line breaks and placeholders -/

def breakLines (html : Text) : Text :=
  html.flatMap fun c => if c = unit '\n' then ascii "<br>" else [c]

def number (digits : Text) : ℕ := digits.foldl (fun n c => 10 * n + (c.toNat - 48)) 0

def placeholderAt (text : Text) : Option (ℕ × ℕ) :=
  if 0 :: ascii "FENCE" <+: text then
    let digits := (text.drop 6).takeWhile isDigit
    if digits ≠ [] ∧ (text.drop (6 + digits.length)).head? = some 0 then
      some (number digits, 6 + digits.length + 1)
    else none
  else none

def restoreFences (stash : List Text) (html : Text) : Text :=
  replace placeholderAt (fun index => (stash[index]?).getD []) html

/-! ## The converter -/

def formattedText (raw : Text) : Text :=
  applyFormats (stashFences (escapeHtml raw))

def markdownToHtml (raw : Text) : Text :=
  restoreFences (fenceStash (escapeHtml raw)) (breakLines (linkify (formattedText raw)))

/-! ## What is matched -/

theorem lazyLength_eq_some {closes : UInt16 → Text → Bool} {text : Text} {n : ℕ}
    (h : lazyLength closes text = some n) :
    ∃ inner last rest, text = inner ++ last :: rest ∧ n = inner.length + 1 ∧
      closes last rest = true ∧ ∀ c ∈ inner ++ [last], isLineTerminator c = false := by
  induction text generalizing n with
  | nil => cases h
  | cons c text ih =>
      unfold lazyLength at h
      obtain ⟨hc, h⟩ := Option.ite_none_left_eq_some.mp h
      rw [Bool.not_eq_true] at hc
      split at h
      · next hcloses =>
          obtain rfl := Option.some_inj.mp h
          exact ⟨[], c, text, rfl, rfl, hcloses, List.forall_mem_singleton.mpr hc⟩
      · obtain ⟨k, hk, rfl⟩ := Option.map_eq_some_iff.mp h
        obtain ⟨inner, last, rest, rfl, rfl, hcloses, hall⟩ := ih hk
        exact ⟨c :: inner, last, rest, rfl, rfl, hcloses, List.forall_mem_cons.mpr ⟨hc, hall⟩⟩

theorem formatAt_eq_some {format : Format} {before : Option UInt16} {text inner : Text} {n : ℕ}
    (hcloses : ∀ last rest, format.closes last rest = true → format.mark <+: rest)
    (h : formatAt format before text = some (inner, n)) :
    ∃ rest, text = format.mark ++ (inner ++ (format.mark ++ rest)) ∧ inner ≠ [] ∧
      n = (format.mark ++ (inner ++ format.mark)).length := by
  unfold formatAt at h
  obtain ⟨⟨hmark, -⟩, h⟩ := Option.ite_none_right_eq_some.mp h
  obtain ⟨behind, rfl⟩ := hmark
  rw [List.drop_left] at h
  obtain ⟨k, hk, heq⟩ := Option.map_eq_some_iff.mp h
  obtain ⟨front, last, rest, rfl, rfl, hclose, -⟩ := lazyLength_eq_some hk
  obtain ⟨rest, rfl⟩ := hcloses last rest hclose
  have hinner : front ++ last :: (format.mark ++ rest) =
      (front ++ [last]) ++ (format.mark ++ rest) := by
    rw [List.append_assoc]
    rfl
  have hlen : (front ++ [last]).length = front.length + 1 := List.length_append
  rw [hinner, ← hlen, List.take_left, Prod.mk.injEq] at heq
  obtain ⟨rfl, rfl⟩ := heq
  refine ⟨rest, by rw [hinner], List.concat_ne_nil _ _, ?_⟩
  simp only [List.length_append]
  omega

theorem exists_takeWhile {p : UInt16 → Bool} {text : Text} {c : UInt16}
    (h : (text.drop (text.takeWhile p).length).head? = some c) :
    ∃ rest, text.drop (text.takeWhile p).length = c :: rest ∧
      text.takeWhile p ++ c :: rest = text := by
  obtain ⟨rest, hrest⟩ := List.head?_eq_some_iff.mp h
  refine ⟨rest, hrest, ?_⟩
  rw [← hrest]
  exact List.prefix_iff_eq_append.mp (List.takeWhile_prefix p)

theorem codeAt_eq_some {text inner : Text} {n : ℕ} (h : codeAt text = some (inner, n)) :
    ∃ rest, text = unit '`' :: (inner ++ unit '`' :: rest) ∧ inner ≠ [] ∧ n = inner.length + 2 := by
  unfold codeAt at h
  obtain ⟨hhead, h⟩ := Option.ite_none_right_eq_some.mp h
  obtain ⟨behind, rfl⟩ := List.head?_eq_some_iff.mp hhead
  obtain ⟨⟨hne, hend⟩, h⟩ := Option.ite_none_right_eq_some.mp h
  rw [List.tail_cons] at hne hend h
  rw [Nat.add_comm, List.drop_succ_cons] at hend
  obtain ⟨rest, -, hrest⟩ := exists_takeWhile hend
  rw [Option.some_inj, Prod.mk.injEq] at h
  obtain ⟨rfl, rfl⟩ := h
  refine ⟨rest, congrArg _ hrest.symm, hne, ?_⟩
  omega

theorem placeholderAt_eq_some {text : Text} {index n : ℕ}
    (h : placeholderAt text = some (index, n)) :
    ∃ digits rest, text = 0 :: (ascii "FENCE" ++ (digits ++ 0 :: rest)) ∧ digits ≠ [] ∧
      (∀ c ∈ digits, isDigit c = true) ∧ index = number digits ∧ n = digits.length + 7 := by
  unfold placeholderAt at h
  obtain ⟨⟨behind, rfl⟩, h⟩ := Option.ite_none_right_eq_some.mp h
  obtain ⟨⟨hne, hend⟩, h⟩ := Option.ite_none_right_eq_some.mp h
  have hdrop : (0 :: ascii "FENCE" ++ behind).drop 6 = behind := rfl
  rw [← List.drop_drop, hdrop] at hend
  rw [hdrop] at hne h
  obtain ⟨rest, -, hrest⟩ := exists_takeWhile hend
  rw [Option.some_inj, Prod.mk.injEq] at h
  obtain ⟨rfl, rfl⟩ := h
  refine ⟨behind.takeWhile isDigit, rest, ?_, hne, ?_, rfl, ?_⟩
  · rw [hrest]
    rfl
  · exact fun c hc => List.mem_takeWhile_imp hc
  · omega

theorem fenceAt_eq_some {text lang body : Text} {n : ℕ}
    (h : fenceAt text = some ((lang, body), n)) :
    ∃ rest, text = ascii "```" ++ (lang ++ unit '\n' :: (body ++ (ascii "```" ++ rest))) ∧
      (∀ c ∈ lang, isLangChar c = true) ∧ n = lang.length + body.length + 7 := by
  unfold fenceAt at h
  obtain ⟨⟨behind, rfl⟩, h⟩ := Option.ite_none_right_eq_some.mp h
  obtain ⟨hend, h⟩ := Option.ite_none_right_eq_some.mp h
  have hdrop : (ascii "```" ++ behind).drop 3 = behind := rfl
  rw [← List.drop_drop, hdrop] at hend h
  obtain ⟨inside, hbehind, hinside⟩ := exists_takeWhile hend
  rw [hbehind, List.drop_succ_cons, List.drop_zero] at h
  obtain ⟨k, hk, heq⟩ := Option.map_eq_some_iff.mp h
  rw [Prod.mk.injEq, Prod.mk.injEq] at heq
  obtain ⟨⟨rfl, rfl⟩, rfl⟩ := heq
  obtain ⟨rest, hrest⟩ := prefix_drop_of_indexOf hk
  have hlen : k ≤ inside.length := by
    by_contra hlt
    rw [List.drop_eq_nil_of_le (Nat.le_of_not_le hlt)] at hrest
    cases hrest
  refine ⟨rest, ?_, fun c hc => List.mem_takeWhile_imp hc, ?_⟩
  · rw [hrest, List.take_append_drop, hinside]
  · rw [List.length_take_of_le hlen]
    omega

end FancyMumble.Interface.MarkdownHtml
