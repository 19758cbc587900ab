import FancyMumble.Lib.Json
import Mathlib.Data.List.DropRight

/-!
# URLs in drafts

How the input finds the URLs of a text, and which characters at the end of one are left to the
sentence around it.
-/

namespace FancyMumble.Interface.MarkdownUrls

open Lib.Json

def isSpace (c : UInt16) : Bool :=
  (9 ≤ c && c ≤ 13) || c = 0x20 || c = 0xA0 || c = 0x1680 || (0x2000 ≤ c && c ≤ 0x200A) ||
    c = 0x2028 || c = 0x2029 || c = 0x202F || c = 0x205F || c = 0x3000 || c = 0xFEFF

def isUrlChar (c : UInt16) : Bool := !isSpace c && c ∉ ascii "<>\"'`"

def schemes : List Text := [ascii "https://", ascii "http://", ascii "ftp://"]

def urlAt (text : Text) : Option ℕ :=
  schemes.findSome? fun scheme =>
    if scheme <+: text then
      let rest := (text.drop scheme.length).takeWhile isUrlChar
      if rest = [] then none else some (scheme.length + rest.length)
    else none

def findUrl : Text → Option (ℕ × ℕ)
  | [] => none
  | c :: text =>
      match urlAt (c :: text) with
      | some n => some (0, n)
      | none => (findUrl text).map fun (start, n) => (start + 1, n)

def isPunctuation (c : UInt16) : Bool := c ∈ ascii ".,;:!?'" ++ [0x201D, 0x2019, 0x2026]

def isStray (last : UInt16) (out : Text) : Bool :=
  (last = unit ')' && out.count (unit '(') + 1 ≤ out.count (unit ')')) ||
    (last = unit ']' && out.count (unit '[') + 1 ≤ out.count (unit ']')) ||
    last = unit '>' || last = 0xBB

def trimStray : Text → Text
  | [] => []
  | last :: out => if isStray last (last :: out) then trimStray out else last :: out

def trimTrailingPunctuation (url : Text) : Text :=
  (trimStray (url.rdropWhile isPunctuation).reverse).reverse

theorem urlAt_pos {text : Text} {n : ℕ} (h : urlAt text = some n) : 0 < n := by
  obtain ⟨scheme, hscheme, hn⟩ := List.exists_of_findSome?_eq_some h
  by_cases hstart : scheme <+: text
  · rw [if_pos hstart] at hn
    obtain ⟨hrest, hn⟩ := Option.ite_none_left_eq_some.mp hn
    obtain rfl := Option.some_inj.mp hn
    exact Nat.add_pos_right _ (List.length_pos_iff.mpr hrest)
  · rw [if_neg hstart] at hn
    cases hn

theorem findUrl_pos {text : Text} {start n : ℕ} (h : findUrl text = some (start, n)) : 0 < n := by
  induction text generalizing start with
  | nil => cases h
  | cons c text ih =>
      unfold findUrl at h
      split at h
      · next hurl =>
          cases h
          exact urlAt_pos hurl
      · obtain ⟨⟨start', n'⟩, hfound, heq⟩ := Option.map_eq_some_iff.mp h
        cases heq
        exact ih hfound

theorem length_drop_lt_of_findUrl {text : Text} {start n : ℕ}
    (h : findUrl text = some (start, n)) : (text.drop (start + n)).length < text.length := by
  have hn := findUrl_pos h
  cases text with
  | nil => cases h
  | cons c text =>
      rw [List.length_drop, List.length_cons]
      omega

theorem trimStray_suffix (out : Text) : trimStray out <:+ out := by
  induction out with
  | nil => exact List.suffix_rfl
  | cons last out ih =>
      unfold trimStray
      split
      · exact ih.trans (List.suffix_cons last out)
      · exact List.suffix_rfl

theorem trimTrailingPunctuation_start (url : Text) : trimTrailingPunctuation url <+: url := by
  unfold trimTrailingPunctuation
  have htrim := List.reverse_prefix.mpr
    (trimStray_suffix (url.rdropWhile isPunctuation).reverse)
  rw [List.reverse_reverse] at htrim
  exact htrim.trans (List.rdropWhile_prefix isPunctuation url)

end FancyMumble.Interface.MarkdownUrls
