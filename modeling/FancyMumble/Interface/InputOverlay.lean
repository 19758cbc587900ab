import FancyMumble.Interface.Sanitiser
import Mathlib.Data.List.Dedup

/-!
# The overlay of the input

The input for a message lies under an overlay that shows the same text with its decoration. The
text is taken apart into segments, which the overlay shows one after the other.
-/

namespace FancyMumble.Interface.InputOverlay

open Interface.MarkdownUrls
open Interface.Sanitiser (Attr Node getAttribute textContentAll)
open Lib.Json Lib.Occurrences

structure FenceCode where
  lang : Text
  body : Text
deriving DecidableEq

structure Segment where
  text : Text
  bold : Bool := false
  italic : Bool := false
  underline : Bool := false
  strike : Bool := false
  code : Bool := false
  link : Bool := false
  spoiler : Bool := false
  hljsClass : Option Text := none
  fenceCode : Option FenceCode := none
deriving DecidableEq

/-! ## Segments -/

def pushWithUrls (text : Text) : List Segment :=
  match h : findUrl text with
  | none => if text = [] then [] else [{ text }]
  | some (start, n) =>
      let matched := (text.drop start).take n
      let trimmed := trimTrailingPunctuation matched
      (if start > 0 then [{ text := text.take start }] else []) ++
        { text := trimmed, link := true } ::
        (if trimmed.length < matched.length then [{ text := matched.drop trimmed.length }]
          else []) ++
        pushWithUrls (text.drop (start + n))
termination_by text.length
decreasing_by exact length_drop_lt_of_findUrl ‹_›

def pushCurrent (current : Text) : List Segment :=
  if current = [] then [] else pushWithUrls current

/-- What a turn of the parser finds at the text before it: a segment of a number of characters, or
one character of plain text, before which the plain text so far may have been pushed. -/
inductive Outcome where
  | closes (segment : Segment) (n : ℕ)
  | plain (flush : Bool)
deriving DecidableEq

abbrev Branch := Text → Option (Option (Segment × ℕ))

def fenceBranch : Branch := fun rest =>
  if ascii "```" <+: rest then
    (indexOf (ascii "\n") (rest.drop 3)).map fun lineEnd =>
      let lang := (rest.drop 3).take lineEnd
      let lines := rest.drop (3 + lineEnd)
      match indexOf (ascii "\n```") lines with
      | some closeIdx =>
          let n := 3 + lineEnd + (closeIdx + 4)
          some ({ text := rest.take n
                  fenceCode := some { lang, body := (lines.take closeIdx).drop 1 } }, n)
      | none =>
          some ({ text := rest, fenceCode := some { lang, body := lines.drop 1 } }, rest.length)
  else none

def delimited (marker : Text) (style : Text → Segment) : Branch := fun rest =>
  if marker <+: rest then
    some ((indexOf marker (rest.drop marker.length)).map fun stop =>
      let n := marker.length + stop + marker.length
      (style (rest.take n), n))
  else none

def codeBranch : Branch := delimited (ascii "`") fun text => { text, code := true }

def boldBranch : Branch := delimited (ascii "**") fun text => { text, bold := true }

def spoilerBranch : Branch := delimited (ascii "||") fun text => { text, spoiler := true }

/-- A star that no other one follows, up to the next star, which must be like that as well. -/
def italicBranch : Branch := fun rest =>
  if rest.head? = some (unit '*') ∧ rest[1]? ≠ some (unit '*') then
    some ((indexOf (ascii "*") (rest.drop 1)).bind fun stop =>
      if rest[1 + stop + 1]? ≠ some (unit '*') then
        some ({ text := rest.take (1 + stop + 1), italic := true }, 1 + stop + 1)
      else none)
  else none

def underlineBranch : Branch := delimited (ascii "__") fun text => { text, underline := true }

def strikeBranch : Branch := delimited (ascii "~~") fun text => { text, strike := true }

def branches : List Branch :=
  [fenceBranch, codeBranch, boldBranch, spoilerBranch, italicBranch, underlineBranch,
    strikeBranch]

/-- A branch without an end has pushed the plain text and leaves the rest to the others. -/
def tryBranches (rest : Text) : List Branch → Bool → Outcome
  | [], flush => .plain flush
  | branch :: later, flush =>
      match branch rest with
      | none => tryBranches rest later flush
      | some none => tryBranches rest later true
      | some (some (segment, n)) => .closes segment n

def outcome (rest : Text) : Outcome := tryBranches rest branches false

/-- Segments found by a branch are those in front, and not empty. -/
structure Branch.Sound (branch : Branch) : Prop where
  text : ∀ rest segment n, branch rest = some (some (segment, n)) → segment.text = rest.take n
  pos : ∀ rest segment n, branch rest = some (some (segment, n)) → 0 < n

theorem fenceBranch_sound : Branch.Sound fenceBranch := by
  constructor
  · intro rest segment n h
    unfold fenceBranch at h
    obtain ⟨-, h⟩ := Option.ite_none_right_eq_some.mp h
    obtain ⟨lineEnd, -, h⟩ := Option.map_eq_some_iff.mp h
    dsimp only at h
    split at h
    · cases h
      rfl
    · cases h
      exact List.take_length.symm
  · intro rest segment n h
    unfold fenceBranch at h
    obtain ⟨hstart, h⟩ := Option.ite_none_right_eq_some.mp h
    obtain ⟨lineEnd, -, h⟩ := Option.map_eq_some_iff.mp h
    dsimp only at h
    split at h
    · cases h
      omega
    · cases h
      exact Nat.lt_of_lt_of_le (by decide) hstart.length_le

theorem delimited_sound {marker : Text} (hmarker : marker ≠ []) {style : Text → Segment}
    (hstyle : ∀ text, (style text).text = text) : Branch.Sound (delimited marker style) := by
  have hpos : 0 < marker.length := List.length_pos_iff.mpr hmarker
  constructor
  · intro rest segment n h
    unfold delimited at h
    obtain ⟨-, h⟩ := Option.ite_none_right_eq_some.mp h
    obtain ⟨stop, -, h⟩ := Option.map_eq_some_iff.mp (Option.some_inj.mp h)
    cases h
    exact hstyle _
  · intro rest segment n h
    unfold delimited at h
    obtain ⟨-, h⟩ := Option.ite_none_right_eq_some.mp h
    obtain ⟨stop, -, h⟩ := Option.map_eq_some_iff.mp (Option.some_inj.mp h)
    cases h
    omega

theorem italicBranch_sound : Branch.Sound italicBranch := by
  constructor
  · intro rest segment n h
    unfold italicBranch at h
    obtain ⟨-, h⟩ := Option.ite_none_right_eq_some.mp h
    obtain ⟨stop, -, h⟩ := Option.bind_eq_some_iff.mp (Option.some_inj.mp h)
    obtain ⟨-, h⟩ := Option.ite_none_right_eq_some.mp h
    cases h
    rfl
  · intro rest segment n h
    unfold italicBranch at h
    obtain ⟨-, h⟩ := Option.ite_none_right_eq_some.mp h
    obtain ⟨stop, -, h⟩ := Option.bind_eq_some_iff.mp (Option.some_inj.mp h)
    obtain ⟨-, h⟩ := Option.ite_none_right_eq_some.mp h
    cases h
    omega

theorem branches_sound : ∀ branch ∈ branches, Branch.Sound branch := by
  intro branch hbranch
  simp only [branches, List.mem_cons, List.not_mem_nil, or_false] at hbranch
  rcases hbranch with rfl | rfl | rfl | rfl | rfl | rfl | rfl
  · exact fenceBranch_sound
  · exact delimited_sound (by decide) fun _ => rfl
  · exact delimited_sound (by decide) fun _ => rfl
  · exact delimited_sound (by decide) fun _ => rfl
  · exact italicBranch_sound
  · exact delimited_sound (by decide) fun _ => rfl
  · exact delimited_sound (by decide) fun _ => rfl

theorem exists_branch_of_tryBranches {rest : Text} {later : List Branch} {flush : Bool}
    {segment : Segment} {n : ℕ} (h : tryBranches rest later flush = .closes segment n) :
    ∃ branch ∈ later, branch rest = some (some (segment, n)) := by
  induction later generalizing flush with
  | nil => cases h
  | cons branch later ih =>
      unfold tryBranches at h
      split at h
      · obtain ⟨branch', hmem, hbranch'⟩ := ih h
        exact ⟨branch', List.mem_cons_of_mem _ hmem, hbranch'⟩
      · obtain ⟨branch', hmem, hbranch'⟩ := ih h
        exact ⟨branch', List.mem_cons_of_mem _ hmem, hbranch'⟩
      · next hbranch =>
          cases h
          exact ⟨branch, List.mem_cons_self, hbranch⟩

theorem text_of_outcome {rest : Text} {segment : Segment} {n : ℕ}
    (h : outcome rest = .closes segment n) : segment.text = rest.take n := by
  obtain ⟨branch, hmem, hbranch⟩ := exists_branch_of_tryBranches h
  exact (branches_sound branch hmem).text rest segment n hbranch

theorem outcome_pos {rest : Text} {segment : Segment} {n : ℕ}
    (h : outcome rest = .closes segment n) : 0 < n := by
  obtain ⟨branch, hmem, hbranch⟩ := exists_branch_of_tryBranches h
  exact (branches_sound branch hmem).pos rest segment n hbranch

def parseFrom (current : Text) : Text → List Segment
  | [] => pushCurrent current
  | c :: rest =>
      match _h : outcome (c :: rest) with
      | .closes segment n => pushCurrent current ++ segment :: parseFrom [] ((c :: rest).drop n)
      | .plain true => pushCurrent current ++ parseFrom [c] rest
      | .plain false => parseFrom (current ++ [c]) rest
termination_by rest => rest.length
decreasing_by
  · have hn := outcome_pos _h
    rw [List.length_drop, List.length_cons]
    omega
  · exact Nat.lt_succ_self _
  · exact Nat.lt_succ_self _

def parseMarkdown (raw : Text) : List Segment := parseFrom [] raw

/-! ## Fenced blocks -/

/-- The markup of the highlighter, parsed, has the text that was highlighted. -/
structure Highlighter where
  getLanguage : Text → Bool
  highlight : Text → Text → Option (List Node)
  highlightAuto : Text → Option (List Node)
  keeps_highlight : ∀ body lang nodes, highlight body lang = some nodes →
    textContentAll nodes = body
  keeps_highlightAuto : ∀ body nodes, highlightAuto body = some nodes →
    textContentAll nodes = body

structure Token where
  text : Text
  cls : Text

def className (attributes : List Attr) : Text := (getAttribute attributes (ascii "class")).getD []

mutual

def visit (cls : Text) : Node → List Token
  | .text text => if text = [] then [] else [{ text, cls }]
  | .comment _ => []
  | .element _ _ attributes children =>
      visitAll (if className attributes = [] then cls else className attributes) children

def visitAll (cls : Text) : List Node → List Token
  | [] => []
  | node :: nodes => visit cls node ++ visitAll cls nodes

end

def flattenHljs (nodes : List Node) : List Token := visitAll [] nodes

variable (hljs : Highlighter)

def fenceTokens (lang body : Text) : List Token :=
  let hl :=
    if lang ≠ [] ∧ hljs.getLanguage lang then hljs.highlight body lang
    else hljs.highlightAuto body
  match hl with
  | some nodes => flattenHljs nodes
  | none => [{ text := body, cls := [] }]

def expandSegment (seg : Segment) : List Segment :=
  match seg.fenceCode with
  | none => [seg]
  | some fence =>
      { text := ascii "```" ++ fence.lang ++ ascii "\n" } ::
        (fenceTokens hljs fence.lang fence.body).map (fun t =>
          { text := t.text, hljsClass := if t.cls = [] then none else some t.cls }) ++
        if ascii "\n```" <:+ seg.text then [{ text := ascii "\n```" }] else []

def expandFenceSegments (segments : List Segment) : List Segment :=
  segments.flatMap (expandSegment hljs)

/-! ## The overlay -/

inductive ClassName where
  | mdBold | mdItalic | mdUnderline | mdStrike | mdCode | mdLink | mdSpoiler
  | hljs (cls : Text)
  | selection
deriving DecidableEq

inductive OverlayNode where
  | caret
  | span (text : Text) (classes : List ClassName)

def getSegmentClass (seg : Segment) : List ClassName :=
  (if seg.bold then [.mdBold] else []) ++ (if seg.italic then [.mdItalic] else []) ++
    (if seg.underline then [.mdUnderline] else []) ++ (if seg.strike then [.mdStrike] else []) ++
    (if seg.code then [.mdCode] else []) ++ (if seg.link then [.mdLink] else []) ++
    if seg.spoiler then [.mdSpoiler] else []

structure Cursor where
  cursorPos : Option ℕ
  selected : Option (ℕ × ℕ)

def Cursor.of (selStart selEnd : ℕ) (showCursor : Bool) : Cursor where
  cursorPos := if showCursor ∧ selStart = selEnd then some selStart else none
  selected :=
    if showCursor ∧ selStart ≠ selEnd then some (min selStart selEnd, max selStart selEnd)
    else none

variable (cursor : Cursor)

def Cursor.boundaries : List ℕ :=
  cursor.cursorPos.toList ++ (cursor.selected.map fun (first, last) => [first, last]).getD []

def breaks (segStart len : ℕ) : List ℕ :=
  let inside := cursor.boundaries.filter fun p => segStart < p ∧ p < segStart + len
  ([0] ++ inside.map (· - segStart) ++ [len]).dedup.mergeSort

def Cursor.inSelection (globalFrom globalTo : ℕ) : Bool :=
  match cursor.selected with
  | some (first, last) => first ≤ globalFrom && globalTo ≤ last
  | none => false

def renderSlice (seg : Segment) (segStart : ℕ) (inserted : Bool) (start stop : ℕ) :
    List OverlayNode × Bool :=
  let text := (seg.text.take stop).drop start
  let insert := !inserted && cursor.cursorPos = some (segStart + start)
  let classes := getSegmentClass seg ++ (seg.hljsClass.map .hljs).toList ++
    if cursor.inSelection (segStart + start) (segStart + stop) then [.selection] else []
  ((if insert then [.caret] else []) ++ (if text = [] then [] else [.span text classes]),
    inserted || insert)

def renderSlices (seg : Segment) (segStart : ℕ) (inserted : Bool) :
    List ℕ → List OverlayNode × Bool
  | start :: stop :: later =>
      let slice := renderSlice cursor seg segStart inserted start stop
      let rest := renderSlices seg segStart slice.2 (stop :: later)
      (slice.1 ++ rest.1, rest.2)
  | _ => ([], inserted)

def renderSegments (charIdx : ℕ) (inserted : Bool) : List Segment → List OverlayNode
  | [] => if inserted then [] else [.caret]
  | seg :: segments =>
      let nodes := renderSlices cursor seg charIdx inserted (breaks cursor charIdx seg.text.length)
      nodes.1 ++ renderSegments (charIdx + seg.text.length) nodes.2 segments

def renderFormattedOverlay (segments : List Segment) (selStart selEnd : ℕ) (showCursor : Bool) :
    List OverlayNode :=
  let cursor := Cursor.of selStart selEnd showCursor
  renderSegments cursor 0 cursor.cursorPos.isNone segments

def overlay (value : Text) (selStart selEnd : ℕ) (showCursor : Bool) : List OverlayNode :=
  if value = [] then []
  else
    renderFormattedOverlay (expandFenceSegments hljs (parseMarkdown value)) selStart selEnd
      showCursor

/-! ## What it should show -/

inductive Mark where
  | caret
  | char (c : UInt16) (selected : Bool)
deriving DecidableEq

def OverlayNode.marks : OverlayNode → List Mark
  | .caret => [.caret]
  | .span text classes => text.map fun c => .char c (.selection ∈ classes)

def plainMarks (text : Text) : List Mark := text.map fun c => .char c false

def selectedMarks (text : Text) : List Mark := text.map fun c => .char c true

def textareaMarks (raw : Text) (selStart selEnd : ℕ) (showCursor : Bool) : List Mark :=
  if showCursor then
    if selStart = selEnd then
      plainMarks (raw.take selStart) ++ .caret :: plainMarks (raw.drop selStart)
    else
      plainMarks (raw.take (min selStart selEnd)) ++
        selectedMarks ((raw.take (max selStart selEnd)).drop (min selStart selEnd)) ++
        plainMarks (raw.drop (max selStart selEnd))
  else plainMarks raw

def joined (segments : List Segment) : Text := segments.flatMap (·.text)

/-- The segments have the text of the input, and the overlay shows what the textarea has. -/
structure Lossless (raw : Text) : Prop where
  joined : joined (expandFenceSegments hljs (parseMarkdown raw)) = raw
  shown : ∀ selStart selEnd showCursor,
    (overlay hljs raw selStart selEnd showCursor).flatMap OverlayNode.marks =
      textareaMarks raw selStart selEnd showCursor

def advance (rest : Text) : Text :=
  match outcome rest with
  | .closes _ n => rest.drop n
  | .plain _ => rest.drop 1

/-- The texts that turns of the parser begin with. -/
inductive Reaches (raw : Text) : Text → Prop where
  | start : Reaches raw raw
  | turn {rest : Text} : Reaches raw rest → Reaches raw (advance rest)

/-- The closing marker of a fenced block stands right behind its first line. -/
def EmptyFence (rest : Text) : Prop :=
  ∃ lang later, unit '\n' ∉ lang ∧ rest = ascii "```" ++ lang ++ ascii "\n```" ++ later

/-! ## The text of the segments -/

@[simp] theorem joined_nil : joined [] = [] := rfl

@[simp] theorem joined_cons (seg : Segment) (segments : List Segment) :
    joined (seg :: segments) = seg.text ++ joined segments := rfl

@[simp] theorem joined_append (segments later : List Segment) :
    joined (segments ++ later) = joined segments ++ joined later :=
  List.flatMap_append

theorem joined_pushWithUrls (text : Text) : joined (pushWithUrls text) = text := by
  rw [pushWithUrls]
  split
  · by_cases htext : text = []
    · rw [if_pos htext, htext]
      rfl
    · rw [if_neg htext]
      exact List.append_nil _
  · next start n h =>
      have ih := joined_pushWithUrls (text.drop (start + n))
      have hstart : joined (if start > 0 then [{ text := text.take start }] else []) =
          text.take start := by
        by_cases hpos : start > 0
        · rw [if_pos hpos]
          exact List.append_nil _
        · rw [if_neg hpos, Nat.eq_zero_of_not_pos hpos]
          rfl
      generalize hmatched : (text.drop start).take n = matched
      have htrimmed := List.prefix_iff_eq_append.mp (trimTrailingPunctuation_start matched)
      have hrest : joined (if (trimTrailingPunctuation matched).length < matched.length then
          [{ text := matched.drop (trimTrailingPunctuation matched).length }] else []) =
          matched.drop (trimTrailingPunctuation matched).length := by
        by_cases hless : (trimTrailingPunctuation matched).length < matched.length
        · rw [if_pos hless]
          exact List.append_nil _
        · rw [if_neg hless, List.drop_eq_nil_of_le (Nat.le_of_not_lt hless)]
          rfl
      dsimp only
      rw [joined_append, joined_append, joined_cons, hstart, hrest, ih, htrimmed, ← hmatched,
        List.append_assoc, ← List.drop_drop, List.take_append_drop, List.take_append_drop]
termination_by text.length
decreasing_by exact length_drop_lt_of_findUrl ‹_›

theorem joined_pushCurrent (current : Text) : joined (pushCurrent current) = current := by
  unfold pushCurrent
  by_cases hcurrent : current = []
  · rw [if_pos hcurrent, hcurrent]
    rfl
  · rw [if_neg hcurrent]
    exact joined_pushWithUrls current

section Turns

variable {current rest : Text} {c : UInt16} {segment : Segment} {n : ℕ}

theorem parseFrom_closes (h : outcome (c :: rest) = .closes segment n) :
    parseFrom current (c :: rest) =
      pushCurrent current ++ segment :: parseFrom [] ((c :: rest).drop n) := by
  rw [parseFrom]
  split
  · next h' =>
      rw [h] at h'
      cases h'
      rfl
  · next h' =>
      rw [h] at h'
      cases h'
  · next h' =>
      rw [h] at h'
      cases h'

theorem parseFrom_plain_true (h : outcome (c :: rest) = .plain true) :
    parseFrom current (c :: rest) = pushCurrent current ++ parseFrom [c] rest := by
  rw [parseFrom]
  split
  · next h' =>
      rw [h] at h'
      cases h'
  · rfl
  · next h' =>
      rw [h] at h'
      cases h'

theorem parseFrom_plain_false (h : outcome (c :: rest) = .plain false) :
    parseFrom current (c :: rest) = parseFrom (current ++ [c]) rest := by
  rw [parseFrom]
  split
  · next h' =>
      rw [h] at h'
      cases h'
  · next h' =>
      rw [h] at h'
      cases h'
  · rfl

end Turns

theorem joined_parseFrom (current rest : Text) :
    joined (parseFrom current rest) = current ++ rest := by
  induction current, rest using parseFrom.induct with
  | case1 current =>
      rw [parseFrom, List.append_nil]
      exact joined_pushCurrent current
  | case2 current c rest segment n h ih =>
      rw [parseFrom_closes h, joined_append, joined_pushCurrent, joined_cons, ih,
        text_of_outcome h, List.nil_append, List.take_append_drop]
  | case3 current c rest h ih =>
      rw [parseFrom_plain_true h, joined_append, joined_pushCurrent, ih]
      rfl
  | case4 current c rest h ih =>
      rw [parseFrom_plain_false h, ih, List.append_assoc]
      rfl

/-! ## Empty fences -/

def IsEmptyFence (seg : Segment) : Prop :=
  ∃ lang, seg.fenceCode = some { lang, body := [] } ∧
    seg.text = ascii "```" ++ lang ++ ascii "\n```"

inductive Shape (seg : Segment) : Prop where
  | inline (h : seg.fenceCode = none)
  | closed {lang body : Text} (h : seg.fenceCode = some { lang, body })
      (htext : seg.text = ascii "```" ++ lang ++ ascii "\n" ++ body ++ ascii "\n```")
  | empty (h : IsEmptyFence seg)
  | open {lang body : Text} (h : seg.fenceCode = some { lang, body })
      (htext : seg.text = ascii "```" ++ lang ++ ascii "\n" ++ body)
      (hend : ¬ ascii "\n```" <:+ seg.text)

theorem fenceCode_pushWithUrls (text : Text) : ∀ seg ∈ pushWithUrls text, seg.fenceCode = none := by
  intro seg hseg
  rw [pushWithUrls] at hseg
  split at hseg
  · split at hseg
    · cases hseg
    · rw [List.mem_singleton.mp hseg]
  · next start n h =>
      have ih := fenceCode_pushWithUrls (text.drop (start + n))
      dsimp only at hseg
      rcases List.mem_append.mp hseg with hseg | hseg
      · rcases List.mem_append.mp hseg with hseg | hseg
        · split at hseg
          · rw [List.mem_singleton.mp hseg]
          · cases hseg
        · rcases List.mem_cons.mp hseg with rfl | hseg
          · rfl
          · split at hseg
            · rw [List.mem_singleton.mp hseg]
            · cases hseg
      · exact ih seg hseg
termination_by text.length
decreasing_by exact length_drop_lt_of_findUrl ‹_›

theorem fenceCode_pushCurrent (current : Text) :
    ∀ seg ∈ pushCurrent current, seg.fenceCode = none := by
  unfold pushCurrent
  intro seg hseg
  split at hseg
  · cases hseg
  · exact fenceCode_pushWithUrls current seg hseg

section Fences

variable {lang lines rest : Text} {seg : Segment} {n : ℕ}

theorem exists_lines_of_fenceBranch {found : Option (Segment × ℕ)}
    (h : fenceBranch rest = some found) :
    ∃ lang lines, unit '\n' ∉ lang ∧ rest = ascii "```" ++ (lang ++ unit '\n' :: lines) := by
  unfold fenceBranch at h
  obtain ⟨hstart, h⟩ := Option.ite_none_right_eq_some.mp h
  obtain ⟨lineEnd, hline, -⟩ := Option.map_eq_some_iff.mp h
  have hline : indexOf [unit '\n'] (rest.drop 3) = some lineEnd := hline
  obtain ⟨lang, lines, hlang, hrest⟩ := exists_split_of_indexOf_singleton hline
  refine ⟨lang, lines, hlang, ?_⟩
  rw [← hrest]
  exact (List.prefix_iff_eq_append.mp hstart).symm

theorem fenceBranch_eq (lines : Text) (hlang : unit '\n' ∉ lang) :
    fenceBranch (ascii "```" ++ (lang ++ unit '\n' :: lines)) =
      some (some (match indexOf (ascii "\n```") (unit '\n' :: lines) with
        | some closeIdx =>
            ({ text := ascii "```" ++ (lang ++ (unit '\n' :: lines).take (closeIdx + 4))
               fenceCode :=
                some { lang, body := ((unit '\n' :: lines).take closeIdx).drop 1 } },
              3 + lang.length + (closeIdx + 4))
        | none =>
            ({ text := ascii "```" ++ (lang ++ unit '\n' :: lines)
               fenceCode := some { lang, body := lines } },
              (ascii "```" ++ (lang ++ unit '\n' :: lines)).length))) := by
  have hlength : 3 = (ascii "```").length := rfl
  have hdrop : (ascii "```" ++ (lang ++ unit '\n' :: lines)).drop 3 =
      lang ++ unit '\n' :: lines := by
    rw [hlength, List.drop_left]
  have hlines : (ascii "```" ++ (lang ++ unit '\n' :: lines)).drop (3 + lang.length) =
      unit '\n' :: lines := by
    rw [← List.drop_drop, hdrop, List.drop_left]
  have hline : indexOf (ascii "\n") (lang ++ unit '\n' :: lines) = some lang.length :=
    indexOf_singleton hlang
  unfold fenceBranch
  rw [if_pos (List.prefix_append _ _), hdrop, hline]
  dsimp only [Option.map_some]
  rw [hlines, List.take_left]
  cases hclose : indexOf (ascii "\n```") (unit '\n' :: lines) with
  | none => rfl
  | some closeIdx =>
      have htake : (ascii "```" ++ (lang ++ unit '\n' :: lines)).take
          (3 + lang.length + (closeIdx + 4)) =
          ascii "```" ++ (lang ++ (unit '\n' :: lines).take (closeIdx + 4)) := by
        rw [hlength, Nat.add_assoc, List.take_length_add_append, List.take_length_add_append]
      dsimp only
      rw [htake]

theorem emptyFence_iff (hlang : unit '\n' ∉ lang) :
    EmptyFence (ascii "```" ++ (lang ++ unit '\n' :: lines)) ↔ ascii "```" <+: lines := by
  constructor
  · rintro ⟨lang', later, hlang', heq⟩
    have hsame : lang ++ unit '\n' :: lines = lang' ++ unit '\n' :: (ascii "```" ++ later) := by
      refine List.append_cancel_left (heq.trans ?_)
      rw [List.append_assoc, List.append_assoc]
      rfl
    have hlength : lang.length = lang'.length := by
      have hfirst : indexOf [unit '\n'] (lang ++ unit '\n' :: lines) = some lang.length :=
        indexOf_singleton hlang
      rw [hsame, indexOf_singleton hlang'] at hfirst
      exact (Option.some_inj.mp hfirst).symm
    have hlines := (List.append_inj hsame hlength).2
    exact ⟨later, (List.cons_inj_right _).mp hlines.symm⟩
  · rintro ⟨later, rfl⟩
    refine ⟨lang, later, hlang, ?_⟩
    rw [List.append_assoc, List.append_assoc]
    rfl

theorem not_suffix_of_indexOf_eq_none (hlang : unit '\n' ∉ lang)
    (h : indexOf (ascii "\n```") (unit '\n' :: lines) = none) :
    ¬ ascii "\n```" <:+ ascii "```" ++ (lang ++ unit '\n' :: lines) := by
  have hfront : unit '\n' ∉ ascii "```" ++ lang := by
    rw [List.mem_append, not_or]
    exact ⟨by decide, hlang⟩
  intro hsuffix
  rw [← List.append_assoc] at hsuffix
  have hinside : unit '\n' :: ascii "```" <:+: ascii "```" ++ lang ++ unit '\n' :: lines :=
    hsuffix.isInfix
  exact indexOf_eq_none_iff.mp h ((infix_append_iff_of_notMem hfront).mp hinside)

theorem shape_of_fenceBranch (h : fenceBranch rest = some (some (seg, n))) :
    Shape seg ∧ (IsEmptyFence seg ↔ EmptyFence rest) := by
  obtain ⟨lang, lines, hlang, rfl⟩ := exists_lines_of_fenceBranch h
  rw [fenceBranch_eq lines hlang] at h
  rw [emptyFence_iff hlang]
  have hhead : ascii "```" <+: lines → indexOf (ascii "\n```") (unit '\n' :: lines) = some 0 :=
    fun hlines => if_pos (List.cons_prefix_cons.mpr ⟨rfl, hlines⟩)
  cases hclose : indexOf (ascii "\n```") (unit '\n' :: lines) with
  | none =>
      rw [hclose] at h hhead
      cases h
      have hend := not_suffix_of_indexOf_eq_none hlang hclose
      refine ⟨.open rfl ?_ hend, ?_⟩
      · rw [List.append_assoc, List.append_assoc]
        rfl
      · constructor
        · rintro ⟨lang', -, htext⟩
          exact absurd ⟨ascii "```" ++ lang', htext.symm⟩ hend
        · intro hlines
          cases hhead hlines
  | some closeIdx =>
      rw [hclose] at h hhead
      cases h
      have hbegins := prefix_drop_of_indexOf hclose
      cases closeIdx with
      | zero =>
          have htake : (unit '\n' :: lines).take 4 = ascii "\n```" :=
            (List.prefix_iff_eq_take.mp hbegins).symm
          have hempty : IsEmptyFence
              { text := ascii "```" ++ (lang ++ (unit '\n' :: lines).take 4)
                fenceCode := some { lang, body := [] } } := by
            refine ⟨lang, rfl, ?_⟩
            rw [htake, List.append_assoc]
          refine ⟨.empty hempty, iff_of_true hempty ?_⟩
          exact (List.cons_prefix_cons.mp hbegins).2
      | succ k =>
          have htake : (unit '\n' :: lines).take (k + 1 + 4) =
              ascii "\n" ++ lines.take k ++ ascii "\n```" := by
            have hfour : (lines.drop k).take 4 = ascii "\n```" :=
              (List.prefix_iff_eq_take.mp hbegins).symm
            rw [Nat.add_right_comm, List.take_succ_cons, List.take_add, hfour, List.append_assoc]
            rfl
          refine ⟨.closed rfl ?_, ?_⟩
          · rw [htake]
            simp only [List.append_assoc]
            rfl
          · constructor
            · rintro ⟨lang', hcode, htext⟩
              obtain ⟨rfl, -⟩ := FenceCode.mk.inj (Option.some_inj.mp hcode)
              rw [htake] at htext
              have hlength := congrArg List.length htext
              simp [ascii] at hlength
            · intro hlines
              cases hhead hlines

end Fences

/-! ## Empty fences on the way of the parser -/

theorem delimited_inline {marker : Text} {style : Text → Segment}
    (hstyle : ∀ text, (style text).fenceCode = none) {rest : Text} {seg : Segment} {n : ℕ}
    (h : delimited marker style rest = some (some (seg, n))) : seg.fenceCode = none := by
  unfold delimited at h
  obtain ⟨-, h⟩ := Option.ite_none_right_eq_some.mp h
  obtain ⟨stop, -, h⟩ := Option.map_eq_some_iff.mp (Option.some_inj.mp h)
  cases h
  exact hstyle _

theorem italicBranch_inline {rest : Text} {seg : Segment} {n : ℕ}
    (h : italicBranch rest = some (some (seg, n))) : seg.fenceCode = none := by
  unfold italicBranch at h
  obtain ⟨-, h⟩ := Option.ite_none_right_eq_some.mp h
  obtain ⟨stop, -, h⟩ := Option.bind_eq_some_iff.mp (Option.some_inj.mp h)
  obtain ⟨-, h⟩ := Option.ite_none_right_eq_some.mp h
  cases h
  rfl

theorem eq_fenceBranch_of_mem {branch : Branch} (hmem : branch ∈ branches) {rest : Text}
    {seg : Segment} {n : ℕ} (h : branch rest = some (some (seg, n))) :
    branch = fenceBranch ∨ seg.fenceCode = none := by
  simp only [branches, List.mem_cons, List.not_mem_nil, or_false] at hmem
  rcases hmem with rfl | rfl | rfl | rfl | rfl | rfl | rfl
  · exact .inl rfl
  · exact .inr (delimited_inline (fun _ => rfl) h)
  · exact .inr (delimited_inline (fun _ => rfl) h)
  · exact .inr (delimited_inline (fun _ => rfl) h)
  · exact .inr (italicBranch_inline h)
  · exact .inr (delimited_inline (fun _ => rfl) h)
  · exact .inr (delimited_inline (fun _ => rfl) h)

theorem outcome_of_fenceBranch {rest : Text} {seg : Segment} {n : ℕ}
    (h : fenceBranch rest = some (some (seg, n))) : outcome rest = .closes seg n := by
  unfold outcome branches tryBranches
  rw [h]

theorem exists_segment_of_fenceBranch {rest : Text} {found : Option (Segment × ℕ)}
    (h : fenceBranch rest = some found) : ∃ seg n, found = some (seg, n) := by
  obtain ⟨lang, lines, hlang, rfl⟩ := exists_lines_of_fenceBranch h
  rw [fenceBranch_eq lines hlang] at h
  exact ⟨_, _, (Option.some_inj.mp h).symm⟩

theorem exists_outcome_of_emptyFence {rest : Text} (h : EmptyFence rest) :
    ∃ seg n, outcome rest = .closes seg n ∧ IsEmptyFence seg := by
  obtain ⟨lang, later, hlang, rfl⟩ := h
  have hrest : ascii "```" ++ lang ++ ascii "\n```" ++ later =
      ascii "```" ++ (lang ++ unit '\n' :: (ascii "```" ++ later)) := by
    rw [List.append_assoc, List.append_assoc]
    rfl
  have hfence := fenceBranch_eq (ascii "```" ++ later) hlang
  obtain ⟨seg, n, hfound⟩ := exists_segment_of_fenceBranch hfence
  rw [hfound] at hfence
  rw [hrest]
  refine ⟨seg, n, outcome_of_fenceBranch hfence, (shape_of_fenceBranch hfence).2.mpr ?_⟩
  exact (emptyFence_iff hlang).mpr (List.prefix_append _ _)

theorem shape_of_outcome {rest : Text} {seg : Segment} {n : ℕ}
    (h : outcome rest = .closes seg n) :
    Shape seg ∧ (IsEmptyFence seg ↔ EmptyFence rest) := by
  obtain ⟨branch, hmem, hbranch⟩ := exists_branch_of_tryBranches h
  rcases eq_fenceBranch_of_mem hmem hbranch with rfl | hnone
  · exact shape_of_fenceBranch hbranch
  · have hnot : ¬ IsEmptyFence seg := by
      rintro ⟨lang, hcode, -⟩
      rw [hnone] at hcode
      cases hcode
    refine ⟨.inline hnone, iff_of_false hnot fun hempty => ?_⟩
    obtain ⟨seg', n', h', hempty'⟩ := exists_outcome_of_emptyFence hempty
    rw [h] at h'
    cases h'
    exact hnot hempty'

theorem not_emptyFence_of_plain {rest : Text} {flush : Bool} (h : outcome rest = .plain flush) :
    ¬ EmptyFence rest := by
  intro hempty
  obtain ⟨seg, n, h', -⟩ := exists_outcome_of_emptyFence hempty
  rw [h] at h'
  cases h'

theorem shape_of_mem_parseFrom (current rest : Text) :
    ∀ seg ∈ parseFrom current rest, Shape seg := by
  induction current, rest using parseFrom.induct with
  | case1 current =>
      rw [parseFrom]
      exact fun seg hseg => .inline (fenceCode_pushCurrent current seg hseg)
  | case2 current c rest segment n h ih =>
      rw [parseFrom_closes h]
      intro seg hseg
      rcases List.mem_append.mp hseg with hseg | hseg
      · exact .inline (fenceCode_pushCurrent current seg hseg)
      · rcases List.mem_cons.mp hseg with rfl | hseg
        · exact (shape_of_outcome h).1
        · exact ih seg hseg
  | case3 current c rest h ih =>
      rw [parseFrom_plain_true h]
      intro seg hseg
      rcases List.mem_append.mp hseg with hseg | hseg
      · exact .inline (fenceCode_pushCurrent current seg hseg)
      · exact ih seg hseg
  | case4 current c rest h ih =>
      rw [parseFrom_plain_false h]
      exact ih

theorem not_isEmptyFence_of_pushCurrent {current : Text} {seg : Segment}
    (h : seg ∈ pushCurrent current) : ¬ IsEmptyFence seg := by
  rintro ⟨lang, hcode, -⟩
  rw [fenceCode_pushCurrent current seg h] at hcode
  cases hcode

theorem reaches_iff {raw rest : Text} :
    Reaches raw rest ↔ rest = raw ∨ Reaches (advance raw) rest := by
  constructor
  · intro h
    induction h with
    | start => exact .inl rfl
    | turn _ ih =>
        rcases ih with rfl | ih
        · exact .inr .start
        · exact .inr (.turn ih)
  · rintro (rfl | h)
    · exact .start
    · induction h with
      | start => exact .turn .start
      | turn _ ih => exact .turn ih

theorem not_emptyFence_nil {rest : Text} (h : Reaches [] rest) : ¬ EmptyFence rest := by
  have hnil : rest = [] := by
    induction h with
    | start => rfl
    | turn _ ih =>
        rw [ih]
        rfl
  rw [hnil]
  rintro ⟨lang, later, -, heq⟩
  cases heq

/-- The parser finds an empty fence exactly if one of its turns begins at one. -/
theorem exists_isEmptyFence_iff (current rest : Text) :
    (∃ seg ∈ parseFrom current rest, IsEmptyFence seg) ↔
      ∃ later, Reaches rest later ∧ EmptyFence later := by
  have hadvance : ∀ raw : Text, (∃ later, Reaches raw later ∧ EmptyFence later) ↔
      EmptyFence raw ∨ ∃ later, Reaches (advance raw) later ∧ EmptyFence later := by
    intro raw
    constructor
    · rintro ⟨later, hreaches, hempty⟩
      rcases reaches_iff.mp hreaches with rfl | hreaches
      · exact .inl hempty
      · exact .inr ⟨later, hreaches, hempty⟩
    · rintro (hempty | ⟨later, hreaches, hempty⟩)
      · exact ⟨raw, .start, hempty⟩
      · exact ⟨later, reaches_iff.mpr (.inr hreaches), hempty⟩
  induction current, rest using parseFrom.induct with
  | case1 current =>
      rw [parseFrom]
      refine iff_of_false ?_ ?_
      · rintro ⟨seg, hseg, hempty⟩
        exact not_isEmptyFence_of_pushCurrent hseg hempty
      · rintro ⟨later, hreaches, hempty⟩
        exact not_emptyFence_nil hreaches hempty
  | case2 current c rest segment n h ih =>
      have hnext : advance (c :: rest) = (c :: rest).drop n := by
        unfold advance
        rw [h]
      have hlater : (∃ seg ∈ parseFrom [] ((c :: rest).drop n), IsEmptyFence seg) ↔
          ∃ later, Reaches ((c :: rest).drop n) later ∧ EmptyFence later := ih
      rw [parseFrom_closes h, hadvance, hnext, ← hlater, ← (shape_of_outcome h).2]
      constructor
      · rintro ⟨seg, hseg, hempty⟩
        rcases List.mem_append.mp hseg with hseg | hseg
        · exact absurd hempty (not_isEmptyFence_of_pushCurrent hseg)
        · rcases List.mem_cons.mp hseg with rfl | hseg
          · exact .inl hempty
          · exact .inr ⟨seg, hseg, hempty⟩
      · rintro (hempty | ⟨seg, hseg, hempty⟩)
        · exact ⟨segment, List.mem_append_right _ List.mem_cons_self, hempty⟩
        · exact ⟨seg, List.mem_append_right _ (List.mem_cons_of_mem _ hseg), hempty⟩
  | case3 current c rest h ih =>
      have hnext : advance (c :: rest) = rest := by
        unfold advance
        rw [h]
        rfl
      have hlater : (∃ seg ∈ parseFrom [c] rest, IsEmptyFence seg) ↔
          ∃ later, Reaches rest later ∧ EmptyFence later := ih
      rw [parseFrom_plain_true h, hadvance, hnext, ← hlater,
        or_iff_right (not_emptyFence_of_plain h)]
      constructor
      · rintro ⟨seg, hseg, hempty⟩
        rcases List.mem_append.mp hseg with hseg | hseg
        · exact absurd hempty (not_isEmptyFence_of_pushCurrent hseg)
        · exact ⟨seg, hseg, hempty⟩
      · rintro ⟨seg, hseg, hempty⟩
        exact ⟨seg, List.mem_append_right _ hseg, hempty⟩
  | case4 current c rest h ih =>
      have hnext : advance (c :: rest) = rest := by
        unfold advance
        rw [h]
        rfl
      rw [parseFrom_plain_false h, hadvance, hnext, or_iff_right (not_emptyFence_of_plain h)]
      exact ih

/-! ## The text of expanded segments -/

mutual

theorem text_visit (cls : Text) : ∀ node : Node,
    (visit cls node).flatMap (·.text) = node.textContent
  | .text text => by
      unfold visit Node.textContent
      by_cases htext : text = []
      · rw [if_pos htext, htext]
        rfl
      · rw [if_neg htext]
        exact List.append_nil _
  | .comment _ => rfl
  | .element _ _ attributes children => by
      unfold visit Node.textContent
      exact text_visitAll _ children

theorem text_visitAll (cls : Text) : ∀ nodes : List Node,
    (visitAll cls nodes).flatMap (·.text) = textContentAll nodes
  | [] => rfl
  | node :: nodes => by
      unfold visitAll textContentAll
      rw [List.flatMap_append, text_visit cls node, text_visitAll cls nodes]

end

theorem text_fenceTokens (lang body : Text) :
    (fenceTokens hljs lang body).flatMap (·.text) = body := by
  unfold fenceTokens
  dsimp only
  split
  · next nodes hnodes =>
      unfold flattenHljs
      rw [text_visitAll]
      split at hnodes
      · exact hljs.keeps_highlight body lang nodes hnodes
      · exact hljs.keeps_highlightAuto body nodes hnodes
  · exact List.append_nil body

theorem joined_expandSegment_fence {seg : Segment} {lang body : Text}
    (h : seg.fenceCode = some { lang, body }) :
    joined (expandSegment hljs seg) = ascii "```" ++ lang ++ ascii "\n" ++ body ++
      if ascii "\n```" <:+ seg.text then ascii "\n```" else [] := by
  have htokens : joined ((fenceTokens hljs lang body).map fun t =>
      { text := t.text, hljsClass := if t.cls = [] then none else some t.cls }) = body := by
    unfold joined
    rw [List.flatMap_map]
    exact text_fenceTokens hljs lang body
  unfold expandSegment
  rw [h]
  dsimp only
  rw [joined_append, joined_cons, htokens]
  by_cases hend : ascii "\n```" <:+ seg.text
  · rw [if_pos hend, if_pos hend]
    rfl
  · rw [if_neg hend, if_neg hend]
    rfl

theorem joined_expandSegment {seg : Segment} (hshape : Shape seg) (h : ¬ IsEmptyFence seg) :
    joined (expandSegment hljs seg) = seg.text := by
  cases hshape with
  | inline hnone =>
      unfold expandSegment
      rw [hnone]
      exact List.append_nil _
  | closed hcode htext =>
      have hend : ascii "\n```" <:+ seg.text := by
        rw [htext]
        exact List.suffix_append _ _
      rw [joined_expandSegment_fence hljs hcode, if_pos hend, htext]
  | empty hempty => exact absurd hempty h
  | «open» hcode htext hend =>
      rw [joined_expandSegment_fence hljs hcode, if_neg hend, htext, List.append_nil]

theorem length_joined_expandSegment {seg : Segment} (h : IsEmptyFence seg) :
    (joined (expandSegment hljs seg)).length = seg.text.length + 1 := by
  obtain ⟨lang, hcode, htext⟩ := h
  have hend : ascii "\n```" <:+ seg.text := by
    rw [htext]
    exact List.suffix_append _ _
  rw [joined_expandSegment_fence hljs hcode, if_pos hend, htext]
  simp only [List.length_append, List.length_nil]
  have hline : (ascii "\n").length = 1 := rfl
  omega

theorem joined_expandFenceSegments {segments : List Segment}
    (hshape : ∀ seg ∈ segments, Shape seg) (h : ∀ seg ∈ segments, ¬ IsEmptyFence seg) :
    joined (expandFenceSegments hljs segments) = joined segments := by
  induction segments with
  | nil => rfl
  | cons seg segments ih =>
      rw [List.forall_mem_cons] at hshape h
      unfold expandFenceSegments at ih ⊢
      rw [List.flatMap_cons, joined_append, joined_cons,
        joined_expandSegment hljs hshape.1 h.1, ih hshape.2 h.2]

theorem length_le_joined_expandSegment {seg : Segment} (hshape : Shape seg) :
    seg.text.length ≤ (joined (expandSegment hljs seg)).length := by
  by_cases hempty : IsEmptyFence seg
  · rw [length_joined_expandSegment hljs hempty]
    exact Nat.le_succ _
  · rw [joined_expandSegment hljs hshape hempty]

theorem length_le_joined_expandFenceSegments {segments : List Segment}
    (hshape : ∀ seg ∈ segments, Shape seg) :
    (joined segments).length ≤ (joined (expandFenceSegments hljs segments)).length := by
  induction segments with
  | nil => exact le_rfl
  | cons seg segments ih =>
      rw [List.forall_mem_cons] at hshape
      have hseg := length_le_joined_expandSegment hljs hshape.1
      have hrest := ih hshape.2
      unfold expandFenceSegments at hrest ⊢
      rw [List.flatMap_cons, joined_append, joined_cons, List.length_append, List.length_append]
      exact Nat.add_le_add hseg hrest

theorem length_lt_joined_expandFenceSegments {segments : List Segment}
    (hshape : ∀ seg ∈ segments, Shape seg) (h : ∃ seg ∈ segments, IsEmptyFence seg) :
    (joined segments).length < (joined (expandFenceSegments hljs segments)).length := by
  obtain ⟨seg, hseg, hempty⟩ := h
  obtain ⟨front, back, rfl⟩ := List.append_of_mem hseg
  have hfront := length_le_joined_expandFenceSegments hljs fun seg hseg =>
    hshape seg (List.mem_append_left _ hseg)
  have hback := length_le_joined_expandFenceSegments hljs fun seg hseg =>
    hshape seg (List.mem_append_right _ (List.mem_cons_of_mem _ hseg))
  have hlonger := length_joined_expandSegment hljs hempty
  unfold expandFenceSegments at hfront hback ⊢
  rw [List.flatMap_append, List.flatMap_cons, joined_append, joined_append, joined_append,
    joined_cons]
  simp only [List.length_append]
  omega

theorem joined_expandFenceSegments_iff (raw : Text) :
    joined (expandFenceSegments hljs (parseMarkdown raw)) = raw ↔
      ∀ later, Reaches raw later → ¬ EmptyFence later := by
  have hjoined : joined (parseMarkdown raw) = raw := joined_parseFrom [] raw
  have hshape := shape_of_mem_parseFrom [] raw
  have hfences := exists_isEmptyFence_iff [] raw
  constructor
  · intro h later hreaches hempty
    have hlonger := length_lt_joined_expandFenceSegments hljs hshape
      (hfences.mpr ⟨later, hreaches, hempty⟩)
    unfold parseMarkdown at h hjoined
    rw [h, hjoined] at hlonger
    exact Nat.lt_irrefl _ hlonger
  · intro h
    refine (joined_expandFenceSegments hljs hshape fun seg hseg hempty => ?_).trans hjoined
    obtain ⟨later, hreaches, hempty⟩ := hfences.mp ⟨seg, hseg, hempty⟩
    exact h later hreaches hempty

/-! ## The overlay, one character after the other -/

section Marks

variable {cursor}

def Cursor.passed (cursor : Cursor) (offset : ℕ) : Bool :=
  match cursor.cursorPos with
  | some p => p < offset
  | none => true

def Cursor.covers (cursor : Cursor) (offset : ℕ) : Bool :=
  match cursor.selected with
  | some (first, last) => first ≤ offset && offset < last
  | none => false

def Cursor.marksFrom (cursor : Cursor) (offset : ℕ) : Text → List Mark
  | [] => []
  | c :: text =>
      (if cursor.cursorPos = some offset then [.caret] else []) ++
        .char c (cursor.covers offset) :: cursor.marksFrom (offset + 1) text

theorem marksFrom_append (offset : ℕ) (front back : Text) :
    cursor.marksFrom offset (front ++ back) =
      cursor.marksFrom offset front ++ cursor.marksFrom (offset + front.length) back := by
  induction front generalizing offset with
  | nil => rfl
  | cons c front ih =>
      rw [List.cons_append, Cursor.marksFrom, ih, Cursor.marksFrom, List.length_cons,
        Nat.add_right_comm, Nat.add_assoc, List.append_assoc, List.cons_append]

theorem marksFrom_eq_map {offset : ℕ} {text : Text} {selected : Bool}
    (hcaret : ∀ i < text.length, cursor.cursorPos ≠ some (offset + i))
    (hcovers : ∀ i < text.length, cursor.covers (offset + i) = selected) :
    cursor.marksFrom offset text = text.map fun c => .char c selected := by
  induction text generalizing offset with
  | nil => rfl
  | cons c text ih =>
      have hfirst := hcaret 0 (Nat.zero_lt_succ _)
      have hcovered := hcovers 0 (Nat.zero_lt_succ _)
      rw [Nat.add_zero] at hfirst hcovered
      rw [Cursor.marksFrom, if_neg hfirst, hcovered, List.map_cons, List.nil_append]
      refine congrArg _ (ih ?_ ?_)
      · intro i hi
        rw [Nat.add_assoc, Nat.add_comm 1]
        exact hcaret (i + 1) (Nat.succ_lt_succ hi)
      · intro i hi
        rw [Nat.add_assoc, Nat.add_comm 1]
        exact hcovers (i + 1) (Nat.succ_lt_succ hi)

theorem marksFrom_eq {offset : ℕ} {text : Text} (selected : Bool) (htext : text ≠ [])
    (hcaret : ∀ i < text.length, 0 < i → cursor.cursorPos ≠ some (offset + i))
    (hcovers : ∀ i < text.length, cursor.covers (offset + i) = selected) :
    cursor.marksFrom offset text =
      (if cursor.cursorPos = some offset then [.caret] else []) ++
        text.map fun c => .char c selected := by
  cases text with
  | nil => exact absurd rfl htext
  | cons c text =>
      have hcovered := hcovers 0 (Nat.zero_lt_succ _)
      rw [Nat.add_zero] at hcovered
      rw [Cursor.marksFrom, hcovered, List.map_cons]
      refine congrArg _ (congrArg _ (marksFrom_eq_map ?_ ?_))
      · intro i hi
        rw [Nat.add_assoc, Nat.add_comm 1]
        exact hcaret (i + 1) (Nat.succ_lt_succ hi) (Nat.zero_lt_succ i)
      · intro i hi
        rw [Nat.add_assoc, Nat.add_comm 1]
        exact hcovers (i + 1) (Nat.succ_lt_succ hi)

theorem mem_boundaries {p : ℕ} :
    p ∈ cursor.boundaries ↔ cursor.cursorPos = some p ∨
      ∃ first last, cursor.selected = some (first, last) ∧ (p = first ∨ p = last) := by
  unfold Cursor.boundaries
  rw [List.mem_append, Option.mem_toList]
  cases cursor.selected with
  | none => simp
  | some selected =>
      obtain ⟨first, last⟩ := selected
      simp

theorem covers_eq_inSelection {globalFrom globalTo offset : ℕ}
    (hbounds : ∀ p ∈ cursor.boundaries, ¬ (globalFrom < p ∧ p < globalTo))
    (hfrom : globalFrom ≤ offset) (hto : offset < globalTo) :
    cursor.covers offset = cursor.inSelection globalFrom globalTo := by
  unfold Cursor.covers Cursor.inSelection
  cases hselected : cursor.selected with
  | none => rfl
  | some selected =>
      obtain ⟨first, last⟩ := selected
      have hfirst := hbounds first (mem_boundaries.mpr (.inr ⟨first, last, hselected, .inl rfl⟩))
      have hlast := hbounds last (mem_boundaries.mpr (.inr ⟨first, last, hselected, .inr rfl⟩))
      have h1 : first ≤ offset ↔ first ≤ globalFrom := by omega
      have h2 : offset < last ↔ globalTo ≤ last := by omega
      simp only [h1, h2]

theorem selection_not_mem_getSegmentClass (seg : Segment) :
    ClassName.selection ∉ getSegmentClass seg ++ (seg.hljsClass.map ClassName.hljs).toList := by
  unfold getSegmentClass
  cases seg.hljsClass <;> simp

theorem selection_mem_classes (seg : Segment) (inSelection : Bool) :
    decide (ClassName.selection ∈ getSegmentClass seg ++
      (seg.hljsClass.map ClassName.hljs).toList ++
      if inSelection then [.selection] else []) = inSelection := by
  cases inSelection with
  | false =>
      rw [if_neg Bool.false_ne_true, List.append_nil]
      exact decide_eq_false (selection_not_mem_getSegmentClass seg)
  | true =>
      rw [if_pos rfl]
      exact decide_eq_true (List.mem_append_right _ List.mem_cons_self)

theorem not_passed_and (offset : ℕ) :
    (!cursor.passed offset && decide (cursor.cursorPos = some offset)) =
      decide (cursor.cursorPos = some offset) := by
  unfold Cursor.passed
  cases hcaret : cursor.cursorPos with
  | none => rfl
  | some p =>
      by_cases hp : p = offset
      · simp [hp]
      · simp [hp]

theorem marks_renderSlice (cursor : Cursor) {seg : Segment} (segStart : ℕ) {start stop : ℕ}
    (hless : start < stop)
    (hlength : stop ≤ seg.text.length)
    (hbounds : ∀ p ∈ cursor.boundaries, ¬ (segStart + start < p ∧ p < segStart + stop)) :
    (renderSlice cursor seg segStart (cursor.passed (segStart + start)) start stop).1.flatMap
        OverlayNode.marks =
      cursor.marksFrom (segStart + start) ((seg.text.take stop).drop start) ∧
    (renderSlice cursor seg segStart (cursor.passed (segStart + start)) start stop).2 =
      cursor.passed (segStart + stop) := by
  have hsize : ((seg.text.take stop).drop start).length = stop - start := by
    rw [List.length_drop, List.length_take, Nat.min_eq_left hlength]
  have htext : (seg.text.take stop).drop start ≠ [] := by
    rw [← List.length_pos_iff, hsize]
    omega
  unfold renderSlice
  dsimp only
  rw [not_passed_and]
  constructor
  · rw [if_neg htext, List.flatMap_append, List.flatMap_singleton]
    rw [marksFrom_eq (cursor.inSelection (segStart + start) (segStart + stop)) htext]
    · congr 1
      · by_cases hcaret : cursor.cursorPos = some (segStart + start)
        · simp [hcaret, OverlayNode.marks]
        · simp [hcaret]
      · dsimp only [OverlayNode.marks]
        rw [selection_mem_classes]
    · intro i hi hpos hcaret
      rw [hsize] at hi
      refine hbounds _ (mem_boundaries.mpr (.inl hcaret)) ⟨?_, ?_⟩
      · omega
      · omega
    · intro i hi
      rw [hsize] at hi
      refine covers_eq_inSelection hbounds ?_ ?_
      · omega
      · omega
  · unfold Cursor.passed
    cases hcaret : cursor.cursorPos with
    | none => rfl
    | some p =>
        have hp := hbounds p (mem_boundaries.mpr (.inl hcaret))
        simp only [Option.some_inj, ← Bool.decide_or, decide_eq_decide]
        omega

theorem mem_breaks {segStart len x : ℕ} :
    x ∈ breaks cursor segStart len ↔ x = 0 ∨ x = len ∨
      ∃ p ∈ cursor.boundaries, segStart < p ∧ p < segStart + len ∧ x = p - segStart := by
  unfold breaks
  rw [List.mem_mergeSort, List.mem_dedup, List.mem_append, List.mem_append, List.mem_singleton,
    List.mem_singleton, List.mem_map, or_assoc, or_comm (a := ∃ _, _)]
  refine or_congr_right (or_congr_right (exists_congr fun p => ?_))
  rw [List.mem_filter, decide_eq_true_iff, and_assoc, and_assoc, eq_comm (a := x)]

theorem breaks_sorted (cursor : Cursor) (segStart len : ℕ) :
    (breaks cursor segStart len).Pairwise (· < ·) := by
  unfold breaks
  dsimp only
  generalize [0] ++ _ ++ [len] = offsets
  have hsorted : (offsets.dedup.mergeSort).Pairwise (· ≤ ·) := by
    refine (List.pairwise_mergeSort ?_ ?_ _).imp fun h => of_decide_eq_true h
    · intro a b c hab hbc
      exact decide_eq_true (le_trans (of_decide_eq_true hab) (of_decide_eq_true hbc))
    · intro a b
      rw [Bool.or_eq_true, decide_eq_true_iff, decide_eq_true_iff]
      exact le_total a b
  have hnodup : (offsets.dedup.mergeSort).Nodup :=
    (List.mergeSort_perm _ _).nodup_iff.mpr (List.nodup_dedup offsets)
  exact hsorted.imp₂ (fun a b hle hne => lt_of_le_of_ne hle hne) hnodup

theorem marks_renderSlices (cursor : Cursor) (seg : Segment) (segStart start : ℕ)
    (later : List ℕ)
    (hsorted : (start :: later).Pairwise (· < ·))
    (hle : ∀ x ∈ start :: later, x ≤ seg.text.length)
    (hend : seg.text.length ∈ start :: later)
    (hbounds : ∀ p ∈ cursor.boundaries, segStart + start < p → p < segStart + seg.text.length →
      p - segStart ∈ start :: later) :
    (renderSlices cursor seg segStart (cursor.passed (segStart + start)) (start :: later)).1.flatMap
        OverlayNode.marks =
      cursor.marksFrom (segStart + start) (seg.text.drop start) ∧
    (renderSlices cursor seg segStart (cursor.passed (segStart + start)) (start :: later)).2 =
      cursor.passed (segStart + seg.text.length) := by
  induction later generalizing start with
  | nil =>
      obtain rfl : seg.text.length = start := List.mem_singleton.mp hend
      rw [List.drop_length]
      exact ⟨rfl, rfl⟩
  | cons stop later ih =>
      have hless : start < stop := List.rel_of_pairwise_cons hsorted List.mem_cons_self
      have hlength : stop ≤ seg.text.length :=
        hle stop (List.mem_cons_of_mem _ List.mem_cons_self)
      have hlater := (List.pairwise_cons.mp hsorted).2
      have hslice := marks_renderSlice cursor segStart hless hlength (by
        rintro p hp ⟨hfrom, hto⟩
        rcases List.mem_cons.mp (hbounds p hp hfrom (by omega)) with heq | hmem
        · omega
        · rcases List.mem_cons.mp hmem with heq | hmem
          · omega
          · have := List.rel_of_pairwise_cons hlater hmem
            omega)
      have hrest := ih stop hlater (fun x hx => hle x (List.mem_cons_of_mem _ hx)) (by
        rcases List.mem_cons.mp hend with heq | hmem
        · omega
        · exact hmem) (by
        intro p hp hfrom hto
        rcases List.mem_cons.mp (hbounds p hp (by omega) hto) with heq | hmem
        · omega
        · exact hmem)
      have htext : seg.text.drop start =
          (seg.text.take stop).drop start ++ seg.text.drop stop := by
        rw [← List.drop_append_of_le_length, List.take_append_drop]
        rw [List.length_take]
        omega
      have hsize : ((seg.text.take stop).drop start).length = stop - start := by
        rw [List.length_drop, List.length_take, Nat.min_eq_left hlength]
      unfold renderSlices
      dsimp only
      rw [hslice.2, List.flatMap_append, hslice.1, hrest.1, htext, marksFrom_append, hsize,
        Nat.add_assoc, Nat.add_sub_cancel' hless.le]
      exact ⟨rfl, hrest.2⟩

theorem marks_renderSegments (charIdx : ℕ) (segments : List Segment) :
    (renderSegments cursor charIdx (cursor.passed charIdx) segments).flatMap OverlayNode.marks =
      cursor.marksFrom charIdx (joined segments) ++
        if cursor.passed (charIdx + (joined segments).length) then [] else [.caret] := by
  induction segments generalizing charIdx with
  | nil =>
      rw [renderSegments, joined_nil, List.length_nil, Nat.add_zero]
      cases cursor.passed charIdx <;> rfl
  | cons seg segments ih =>
      have hbreaks : ∃ later, breaks cursor charIdx seg.text.length = 0 :: later := by
        have hzero : 0 ∈ breaks cursor charIdx seg.text.length := mem_breaks.mpr (.inl rfl)
        cases hlist : breaks cursor charIdx seg.text.length with
        | nil =>
            rw [hlist] at hzero
            cases hzero
        | cons start later =>
            have hsorted := breaks_sorted cursor charIdx seg.text.length
            rw [hlist] at hzero hsorted
            rcases List.mem_cons.mp hzero with rfl | hmem
            · exact ⟨later, rfl⟩
            · exact absurd (List.rel_of_pairwise_cons hsorted hmem) (Nat.not_lt_zero _)
      obtain ⟨later, hlater⟩ := hbreaks
      have hslices := marks_renderSlices cursor seg charIdx 0 later
        (hlater ▸ breaks_sorted cursor charIdx seg.text.length)
        (by
          intro x hx
          rw [← hlater, mem_breaks] at hx
          rcases hx with rfl | rfl | ⟨p, -, hfrom, hto, rfl⟩
          · exact Nat.zero_le _
          · exact le_rfl
          · omega)
        (by
          rw [← hlater, mem_breaks]
          exact .inr (.inl rfl))
        (by
          intro p hp hfrom hto
          rw [← hlater, mem_breaks]
          exact .inr (.inr ⟨p, hp, hfrom, hto, rfl⟩))
      rw [Nat.add_zero, List.drop_zero] at hslices
      unfold renderSegments
      dsimp only
      rw [hlater, List.flatMap_append, hslices.1, hslices.2, ih, joined_cons, marksFrom_append,
        List.length_append, List.append_assoc, Nat.add_assoc]

theorem marks_of_no_caret (hcaret : cursor.cursorPos = none) (hselected : cursor.selected = none)
    (text : Text) : cursor.marksFrom 0 text = plainMarks text := by
  refine marksFrom_eq_map ?_ ?_
  · intro i _
    rw [hcaret]
    exact (Option.some_ne_none _).symm
  · intro i _
    unfold Cursor.covers
    rw [hselected]

/-- The caret stands where it is in the textarea, be it behind all of the text. -/
theorem marks_of_caret {p : ℕ} (hcaret : cursor.cursorPos = some p)
    (hselected : cursor.selected = none) (text : Text) :
    (cursor.marksFrom 0 text ++ if cursor.passed text.length then [] else [.caret]) =
      plainMarks (text.take p) ++ .caret :: plainMarks (text.drop p) := by
  have hcovers : ∀ offset, cursor.covers offset = false := by
    intro offset
    unfold Cursor.covers
    rw [hselected]
  have hfront : cursor.marksFrom 0 (text.take p) = plainMarks (text.take p) := by
    refine marksFrom_eq_map ?_ fun i _ => hcovers _
    intro i hi heq
    rw [List.length_take] at hi
    rw [hcaret, Option.some_inj] at heq
    omega
  conv_lhs => rw [← List.take_append_drop p text]
  rw [marksFrom_append, hfront, List.append_assoc, List.take_append_drop]
  refine congrArg _ ?_
  unfold Cursor.passed
  rw [hcaret]
  dsimp only
  by_cases hp : p < text.length
  · have hsize : (text.take p).length = p := List.length_take_of_le hp.le
    have hback : text.drop p ≠ [] := by
      rw [← List.length_pos_iff, List.length_drop]
      omega
    rw [if_pos (decide_eq_true hp), List.append_nil, hsize, Nat.zero_add,
      marksFrom_eq false hback]
    · rw [if_pos hcaret]
      rfl
    · intro i _ hpos heq
      rw [hcaret, Option.some_inj] at heq
      omega
    · exact fun i _ => hcovers _
  · rw [if_neg (by simpa using hp), List.drop_eq_nil_of_le (Nat.le_of_not_lt hp)]
    rfl

theorem marks_of_selection {first last : ℕ} (hcaret : cursor.cursorPos = none)
    (hselected : cursor.selected = some (first, last)) (hle : first ≤ last) (text : Text) :
    cursor.marksFrom 0 text =
      plainMarks (text.take first) ++ selectedMarks ((text.take last).drop first) ++
        plainMarks (text.drop last) := by
  have hnone : ∀ offset, cursor.cursorPos ≠ some offset := by
    intro offset
    rw [hcaret]
    exact (Option.some_ne_none _).symm
  have htext : text = text.take first ++ (text.take last).drop first ++ text.drop last := by
    have hfront : text.take first = (text.take last).take first := by
      rw [List.take_take, Nat.min_eq_left hle]
    rw [hfront, List.take_append_drop, List.take_append_drop]
  conv_lhs => rw [htext]
  rw [marksFrom_append, marksFrom_append]
  refine congrArg₂ _ (congrArg₂ _ ?_ ?_) ?_
  · refine marksFrom_eq_map (fun i _ => hnone _) fun i hi => ?_
    rw [List.length_take] at hi
    unfold Cursor.covers
    rw [hselected]
    simp only [Bool.and_eq_false_imp, decide_eq_true_iff, decide_eq_false_iff_not]
    omega
  · refine marksFrom_eq_map (fun i _ => hnone _) fun i hi => ?_
    rw [List.length_drop, List.length_take] at hi
    rw [List.length_take]
    unfold Cursor.covers
    rw [hselected]
    simp only [Bool.and_eq_true, decide_eq_true_iff]
    omega
  · refine marksFrom_eq_map (fun i _ => hnone _) fun i hi => ?_
    rw [List.length_drop] at hi
    rw [List.length_append, List.length_drop, List.length_take, List.length_take]
    unfold Cursor.covers
    rw [hselected]
    simp only [Bool.and_eq_false_imp, decide_eq_true_iff, decide_eq_false_iff_not]
    omega

end Marks

/-- The overlay shows segments with the caret or the selection of a textarea that has their text. -/
theorem marks_renderFormattedOverlay (segments : List Segment) (selStart selEnd : ℕ)
    (showCursor : Bool) :
    (renderFormattedOverlay segments selStart selEnd showCursor).flatMap OverlayNode.marks =
      textareaMarks (joined segments) selStart selEnd showCursor := by
  have hstart : (Cursor.of selStart selEnd showCursor).cursorPos.isNone =
      (Cursor.of selStart selEnd showCursor).passed 0 := by
    unfold Cursor.passed
    cases (Cursor.of selStart selEnd showCursor).cursorPos <;> rfl
  unfold renderFormattedOverlay
  dsimp only
  rw [hstart, marks_renderSegments, Nat.zero_add]
  unfold textareaMarks
  by_cases hshow : showCursor = true
  · rw [if_pos hshow]
    by_cases hsame : selStart = selEnd
    · have hcaret : (Cursor.of selStart selEnd showCursor).cursorPos = some selStart :=
        if_pos ⟨hshow, hsame⟩
      have hselected : (Cursor.of selStart selEnd showCursor).selected = none :=
        if_neg fun h => h.2 hsame
      rw [if_pos hsame]
      exact marks_of_caret hcaret hselected _
    · have hcaret : (Cursor.of selStart selEnd showCursor).cursorPos = none :=
        if_neg fun h => hsame h.2
      have hselected : (Cursor.of selStart selEnd showCursor).selected =
          some (min selStart selEnd, max selStart selEnd) := if_pos ⟨hshow, hsame⟩
      have hpassed : (Cursor.of selStart selEnd showCursor).passed (joined segments).length =
          true := by
        unfold Cursor.passed
        rw [hcaret]
      rw [if_neg hsame, if_pos hpassed, List.append_nil]
      exact marks_of_selection hcaret hselected min_le_max _
  · have hcaret : (Cursor.of selStart selEnd showCursor).cursorPos = none :=
      if_neg fun h => hshow h.1
    have hselected : (Cursor.of selStart selEnd showCursor).selected = none :=
      if_neg fun h => hshow h.1
    have hpassed : (Cursor.of selStart selEnd showCursor).passed (joined segments).length =
        true := by
      unfold Cursor.passed
      rw [hcaret]
    rw [if_neg hshow, if_pos hpassed, List.append_nil]
    exact marks_of_no_caret hcaret hselected _

/-- The overlay is lossless exactly if there is a text and the parser comes to no empty fence. -/
theorem lossless_iff (raw : Text) :
    Lossless hljs raw ↔ raw ≠ [] ∧ ∀ later, Reaches raw later → ¬ EmptyFence later := by
  constructor
  · intro h
    refine ⟨?_, (joined_expandFenceSegments_iff hljs raw).mp h.joined⟩
    rintro rfl
    have hcaret := h.shown 0 0 true
    cases hcaret
  · rintro ⟨hne, hfences⟩
    have hjoined := (joined_expandFenceSegments_iff hljs raw).mpr hfences
    refine ⟨hjoined, fun selStart selEnd showCursor => ?_⟩
    unfold overlay
    rw [if_neg hne, marks_renderFormattedOverlay, hjoined]

def plainHighlighter : Highlighter where
  getLanguage := fun _ => false
  highlight := fun body _ => some [.text body]
  highlightAuto := fun body => some [.text body]
  keeps_highlight := by
    intro body lang nodes h
    cases h
    exact List.append_nil body
  keeps_highlightAuto := by
    intro body nodes h
    cases h
    exact List.append_nil body

/-- Two markers of a fenced block on lines of their own, with nothing between them, are shown with
a line more. -/
theorem empty_fence_is_not_lossless : ¬ Lossless plainHighlighter (ascii "```\n```") := by
  intro h
  refine (joined_expandFenceSegments_iff plainHighlighter _).mp h.joined _ .start ?_
  exact ⟨[], [], List.not_mem_nil, rfl⟩

end FancyMumble.Interface.InputOverlay
