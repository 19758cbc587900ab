import FancyMumble.Lib.Occurrences
import Mathlib.Data.List.Forall2

/-!
# Offsets in texts

The elements of a text have sizes. An offset into a text counts sizes, so that a text can be cut
only at the offsets that fall between its elements.
-/

namespace FancyMumble.Lib.Offsets

open Lib.Occurrences

variable {α : Type*} (size : α → ℕ)

def total : List α → ℕ
  | [] => 0
  | c :: text => size c + total text

def cutAt : ℕ → List α → Option (List α × List α)
  | 0, text => some ([], text)
  | _ + 1, [] => none
  | n + 1, c :: text =>
      if size c ≤ n + 1 then (cutAt (n + 1 - size c) text).map (Prod.map (c :: ·) id) else none

def slice (first last : ℕ) (text : List α) : Option (List α × List α × List α) :=
  if first ≤ last then
    (cutAt size first text).bind fun cut =>
      (cutAt size (last - first) cut.2).map fun cut' => (cut.1, cut')
  else none

def find [DecidableEq α] (pattern text : List α) : Option ℕ :=
  (indexOf pattern text).map fun i => total size (text.take i)

variable {size} {text front part back : List α} {n first last i j : ℕ}

section Cuts

variable (hsize : ∀ c, 0 < size c)

include hsize

end Cuts

end FancyMumble.Lib.Offsets
