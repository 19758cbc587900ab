import FancyMumble.Messages.Fuzzy
import FancyMumble.Messages.Unread

/-!
# Search in messages

Snippets and the sources of images are cut out of a text at offsets that were found in its
lower-case form.
-/

namespace FancyMumble.Messages.Search

open Interface Lib.Occurrences Lib.Offsets
open Messages.Fuzzy

/-! ## Texts -/

/-- `str::to_lowercase`: what each character of a text becomes, where it stands. -/
structure Lowercase where
  pieces : List Char → List (List Char)
  length_pieces : ∀ text, (pieces text).length = text.length

def Lowercase.apply (self : Lowercase) (text : List Char) : List Char := (self.pieces text).flatten

instance : CoeFun Lowercase fun _ => List Char → List Char := ⟨Lowercase.apply⟩

def plainText (html : List Char) : List Char := stripTags false html

def findText (pattern text : List Char) : Option ℕ := find Char.utf8Size pattern text

/-! ## Snippets -/

structure Cut where
  front : List Char
  part : List Char
  back : List Char

def Cut.text (self : Cut) : List Char :=
  (if self.front = [] then [] else "...".toList) ++ self.part ++
    (if self.back = [] then [] else "...".toList)

def snippetCut (plain : List Char) (pos maxLen : ℕ) : Option Cut :=
  let half := maxLen / 2
  let start := pos - half
  let stop := min (start + maxLen) (bytes plain)
  let start := if stop = bytes plain then stop - maxLen else start
  (slice Char.utf8Size start stop plain).map fun cut => ⟨cut.1, cut.2.1, cut.2.2⟩

def snippet (lower : Lowercase) (text query : List Char) (maxLen : ℕ) : Option (List Char) :=
  let plain := plainText text
  let pos := (findText (lower query) (lower plain)).getD 0
  (snippetCut plain pos maxLen).map Cut.text

/-- The character of a plain text at an index takes part in the match: its lower-case form lies, in
part at least, where the query is found first. -/
def InMatch (lower : Lowercase) (plain query : List Char) (i : ℕ) : Prop :=
  ∃ k, indexOf (lower query) (lower plain) = some k ∧ i < plain.length ∧
    ((lower.pieces plain).take i).flatten.length < k + (lower query).length ∧
    k < ((lower.pieces plain).take (i + 1)).flatten.length

/-- A snippet is a part of the plain text, with ellipses, that has the whole match in it. -/
def Faithful (lower : Lowercase) (text query : List Char) (maxLen : ℕ) : Prop :=
  ∃ cut : Cut, snippet lower text query maxLen = some cut.text ∧
    snippetCut (plainText text)
      ((findText (lower query) (lower (plainText text))).getD 0) maxLen = some cut ∧
    cut.front ++ (cut.part ++ cut.back) = plainText text ∧
    ∀ i, InMatch lower (plainText text) query i →
      cut.front.length ≤ i ∧ i + 1 ≤ cut.front.length + cut.part.length

def tagAt (html : List Char) (absPos : ℕ) : Option (Option (List Char × ℕ)) :=
  match cutAt Char.utf8Size absPos html with
  | none => none
  | some (_, rest) =>
      match findText ['>'] rest with
      | none => some none
      | some last =>
          let tagEnd := absPos + last
          (slice Char.utf8Size absPos (tagEnd + 1) html).map fun cut => some (cut.2.1, tagEnd + 1)

def nextImg (lower : Lowercase) (html : List Char) (searchFrom : ℕ) :
    Option (Option (List Char × ℕ)) :=
  match cutAt Char.utf8Size searchFrom (lower html) with
  | none => none
  | some (_, rest) =>
      match findText "<img".toList rest with
      | none => some none
      | some imgPos => tagAt html (searchFrom + imgPos)

/-- From one offset, the search for images goes on to another. -/
def Reaches (lower : Lowercase) (html : List Char) : ℕ → ℕ → Prop :=
  Relation.ReflTransGen fun n n' => ∃ tag, nextImg lower html n = some (some (tag, n'))

end FancyMumble.Messages.Search
