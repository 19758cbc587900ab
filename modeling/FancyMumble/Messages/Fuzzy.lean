import FancyMumble.Interface.FileServer
import FancyMumble.Lib.Offsets

/-!
# Fuzzy matching

The score of a pattern in a text. Whatever would be out of range is a failure of the whole
computation here; nothing is. Sums of `u32` wrap, as in a release build.
-/

namespace FancyMumble.Messages.Fuzzy

open Interface Lib.Offsets

def bytes (text : List Char) : ℕ := total Char.utf8Size text

def isBoundary (c : Char) : Bool := isWhitespace c || c = '_' || c = '-' || c = '.'

def saturatingSub (a b : UInt32) : UInt32 := if b ≤ a then a - b else 0

structure Scan where
  score : UInt32 := 0
  textIdx : ℕ := 0
  patIdx : ℕ := 0
  consecutive : UInt32 := 0
  matched : UInt32 := 0

namespace Scan

variable (pattern text : List Char)

def atBoundary (s : Scan) : Option Bool :=
  if s.textIdx = 0 then some true else (text[s.textIdx - 1]?).map isBoundary

/-- The next two characters of the pattern are the next two of the text, the other way round. -/
def transposed (s : Scan) (p t : Char) : Option Bool :=
  if s.patIdx + 1 < pattern.length ∧ s.textIdx + 1 < text.length then do
    let p' ← pattern[s.patIdx + 1]?
    let t' ← text[s.textIdx + 1]?
    some (p' = t ∧ p = t')
  else some false

def hit (s : Scan) (boundary : Bool) : Scan where
  score :=
    let consecutive := s.consecutive + 1
    let score := if consecutive > 1 then saturatingSub s.score (consecutive * 2) else s.score
    if boundary then saturatingSub score 10 else score
  textIdx := s.textIdx + 1
  patIdx := s.patIdx + 1
  consecutive := s.consecutive + 1
  matched := s.matched + 1

def transpose (s : Scan) : Scan where
  score := s.score + 5
  textIdx := s.textIdx + 2
  patIdx := s.patIdx + 2
  consecutive := 0
  matched := s.matched + 2

def gap (s : Scan) : Scan :=
  { s with score := s.score + 3, textIdx := s.textIdx + 1, consecutive := 0 }

def step (s : Scan) : Option Scan := do
  let p ← pattern[s.patIdx]?
  let t ← text[s.textIdx]?
  if p = t then
    let boundary ← s.atBoundary text
    some (s.hit boundary)
  else
    let swapped ← s.transposed pattern text p t
    some (if swapped then s.transpose else s.gap)

def InRange (s : Scan) : Prop := s.patIdx ≤ pattern.length

theorem exists_step {pattern text : List Char} {s : Scan} (hpat : s.patIdx < pattern.length)
    (htext : s.textIdx < text.length) :
    ∃ s', s.step pattern text = some s' ∧ s'.InRange pattern ∧ s.textIdx < s'.textIdx := by
  have hp : pattern[s.patIdx]? = some pattern[s.patIdx] := List.getElem?_eq_getElem hpat
  have ht : text[s.textIdx]? = some text[s.textIdx] := List.getElem?_eq_getElem htext
  unfold step
  rw [hp, ht]
  dsimp only [bind, Option.bind]
  by_cases heq : pattern[s.patIdx] = text[s.textIdx]
  · obtain ⟨boundary, hboundary⟩ : ∃ boundary, s.atBoundary text = some boundary := by
      unfold atBoundary
      by_cases hzero : s.textIdx = 0
      · exact ⟨true, if_pos hzero⟩
      · have hbefore : s.textIdx - 1 < text.length := by omega
        rw [if_neg hzero, List.getElem?_eq_getElem hbefore]
        exact ⟨_, rfl⟩
    rw [if_pos heq, hboundary]
    exact ⟨s.hit boundary, rfl, Nat.succ_le_of_lt hpat, Nat.lt_succ_self _⟩
  · rw [if_neg heq]
    unfold transposed
    by_cases hnext : s.patIdx + 1 < pattern.length ∧ s.textIdx + 1 < text.length
    · rw [if_pos hnext, List.getElem?_eq_getElem hnext.1, List.getElem?_eq_getElem hnext.2]
      dsimp only [bind, Option.bind]
      split_ifs
      · exact ⟨s.transpose, rfl, Nat.succ_le_of_lt hnext.1, Nat.lt_add_of_pos_right Nat.two_pos⟩
      · exact ⟨s.gap, rfl, hpat.le, Nat.lt_succ_self _⟩
    · rw [if_neg hnext]
      exact ⟨s.gap, rfl, hpat.le, Nat.lt_succ_self _⟩

end Scan

def scan (pattern text : List Char) (s : Scan) : Option Scan :=
  if _ : s.patIdx < pattern.length ∧ s.textIdx < text.length then
    match _hstep : s.step pattern text with
    | none => none
    | some s' => scan pattern text s'
  else some s
termination_by text.length - s.textIdx
decreasing_by
  rename_i hrange
  obtain ⟨s'', hstep', -, hlt⟩ := Scan.exists_step hrange.1 hrange.2
  obtain rfl := Option.some.inj (_hstep.symm.trans hstep')
  omega

end FancyMumble.Messages.Fuzzy
