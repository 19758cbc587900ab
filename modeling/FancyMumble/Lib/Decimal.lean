import Mathlib.Data.Nat.Notation

/-!
# Decimal numbers in text

Reading an unsigned decimal number with an upper bound, and that it reads back what
the decimal representation of a number writes.
-/

namespace FancyMumble.Decimal

def stripPlus : List Char → List Char
  | '+' :: rest => rest
  | text => text

/-- The number that a text of digits stands for, if it is below `bound`. One leading
plus sign is allowed, and leading zeros are. -/
def parse (bound : ℕ) (text : List Char) : Option ℕ :=
  if stripPlus text ≠ [] ∧ (stripPlus text).all Char.isDigit ∧
      Nat.ofDigitChars 10 (stripPlus text) 0 < bound then
    some (Nat.ofDigitChars 10 (stripPlus text) 0)
  else
    none

theorem isDigit_toDigits (n : ℕ) : (Nat.toDigits 10 n).all Char.isDigit := by
  rw [List.all_eq_true]
  intro c hc
  exact Nat.isDigit_of_mem_toDigits (by decide) (by decide) hc

theorem stripPlus_of_isDigit {text : List Char} (h : text.all Char.isDigit) :
    stripPlus text = text := by
  unfold stripPlus
  split
  · next rest =>
      have hplus : Char.isDigit '+' := List.all_eq_true.mp h '+' List.mem_cons_self
      exact absurd hplus (by decide)
  · rfl

theorem parse_toDigits {bound n : ℕ} (h : n < bound) :
    parse bound (Nat.toDigits 10 n) = some n := by
  unfold parse
  rw [stripPlus_of_isDigit (isDigit_toDigits n), Nat.ofDigitChars_ten_toDigits, if_pos]
  exact ⟨Nat.toDigits_ne_nil, isDigit_toDigits n, h⟩

theorem toString_inj {a b : ℕ} (h : toString a = toString b) : a = b := by
  have htext : (Nat.repr a).toList = (Nat.repr b).toList := congrArg String.toList h
  rw [Nat.toList_repr, Nat.toList_repr] at htext
  rw [← Nat.ofDigitChars_ten_toDigits (n := a), htext, Nat.ofDigitChars_ten_toDigits]

end FancyMumble.Decimal
