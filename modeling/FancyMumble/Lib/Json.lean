import FancyMumble.Lib.Occurrences
import Mathlib.Algebra.Order.Ring.Nat

/-!
# JSON

Writing and reading JSON as the standard library of JavaScript does, in UTF-16 code units, with
numbers of any format: what is written is read back, and a pattern occurs in what is written only
inside its texts.
-/

namespace FancyMumble.Lib.Json

open Lib.Occurrences

abbrev Text := List UInt16

def unit (c : Char) : UInt16 := c.toNat.toUInt16

def ascii (text : String) : Text := text.toList.map unit

/-! ## Numbers -/

def isDigit (c : UInt16) : Bool := unit '0' ≤ c && c ≤ unit '9'

def readDigits : Text → Text × Text
  | [] => ([], [])
  | c :: text =>
      if isDigit c then (c :: (readDigits text).1, (readDigits text).2) else ([], c :: text)

def readSomeDigits (text : Text) : Option (Text × Text) :=
  match readDigits text with
  | ([], _) => none
  | (digits, rest) => some (digits, rest)

def readOptional (units : Text) : Text → Text × Text
  | [] => ([], [])
  | c :: text => if c ∈ units then ([c], text) else ([], c :: text)

def readInteger (text : Text) : Option (Text × Text) :=
  match text with
  | [] => none
  | c :: text => if c = unit '0' then some ([c], text) else readSomeDigits (c :: text)

def readPart (marks signs text : Text) : Option (Text × Text) :=
  match readOptional marks text with
  | ([], _) => some ([], text)
  | (mark, text) => do
      let (sign, text) := readOptional signs text
      let (digits, rest) ← readSomeDigits text
      return (mark ++ sign ++ digits, rest)

def readNumber (text : Text) : Option (Text × Text) := do
  let (minus, text) := readOptional (ascii "-") text
  let (integer, text) ← readInteger text
  let (fraction, text) ← readPart (ascii ".") [] text
  let (exponent, text) ← readPart (ascii "eE") (ascii "+-") text
  return (minus ++ integer ++ fraction ++ exponent, text)

def Ends (text : Text) : Prop :=
  ∀ c, text.head? = some c → isDigit c = false ∧ c ∉ ascii ".eE"

structure NumberFormat (ν : Type) where
  isFinite : ν → Bool
  /-- `String(x)`. -/
  toText : ν → Text
  /-- The value of a number as it is written. -/
  ofText : Text → ν
  readNumber_toText : ∀ x, isFinite x = true → ∀ rest, Ends rest →
    readNumber (toText x ++ rest) = some (toText x, rest)

/-! ## Values -/

inductive Value (ν : Type) where
  | null
  | bool (value : Bool)
  | number (value : ν)
  | string (text : Text)
  | array (elements : List (Value ν))
  /-- The fields stand in the order of insertion. -/
  | object (fields : List (Text × Value ν))

/-! ## Writing -/

def hexDigit (n : ℕ) : UInt16 := unit (Nat.digitChar n)

def unicodeEscape (c : UInt16) : Text :=
  ascii "\\u" ++ [hexDigit (c.toNat / 4096), hexDigit (c.toNat / 256 % 16),
    hexDigit (c.toNat / 16 % 16), hexDigit (c.toNat % 16)]

def simpleEscapes : List (UInt16 × UInt16) :=
  [(unit '"', unit '"'), (unit '\\', unit '\\'), (unit 'b', 8), (unit 'f', 12), (unit 'n', 10),
    (unit 'r', 13), (unit 't', 9)]

def escapeUnit (c : UInt16) : Text :=
  match simpleEscapes.find? fun escape => escape.2 = c with
  | some escape => [unit '\\', escape.1]
  | none => if c < 32 then unicodeEscape c else [c]

def isLead (c : UInt16) : Bool := 0xd800 ≤ c && c < 0xdc00

def isTrail (c : UInt16) : Bool := 0xdc00 ≤ c && c < 0xe000

/-- Surrogates stay in pairs, where the first one has just been written, and are escaped alone. -/
def escape : Bool → Text → Text
  | _, [] => []
  | afterLead, c :: text =>
      if isLead c then
        if (text.head?.map isTrail).getD false then c :: escape true text
        else unicodeEscape c ++ escape false text
      else if isTrail c && !afterLead then unicodeEscape c ++ escape false text
      else escapeUnit c ++ escape false text

def quote (text : Text) : Text := unit '"' :: escape false text ++ [unit '"']

variable {ν : Type} (format : NumberFormat ν)

mutual

def stringify : Value ν → Text
  | .null => ascii "null"
  | .bool value => if value then ascii "true" else ascii "false"
  | .number value => if format.isFinite value then format.toText value else ascii "null"
  | .string text => quote text
  | .array [] => ascii "[]"
  | .array (element :: elements) =>
      unit '[' :: (stringify element ++ stringifyElements elements ++ [unit ']'])
  | .object [] => ascii "\x7b\x7d"
  | .object ((key, value) :: fields) =>
      unit '\x7b' :: (quote key ++ unit ':' :: stringify value ++ stringifyFields fields ++
        [unit '\x7d'])

def stringifyElements : List (Value ν) → Text
  | [] => []
  | element :: elements => unit ',' :: (stringify element ++ stringifyElements elements)

def stringifyFields : List (Text × Value ν) → Text
  | [] => []
  | (key, value) :: fields =>
      unit ',' :: (quote key ++ unit ':' :: stringify value ++ stringifyFields fields)

end

theorem exists_stringify_object (fields : List (Text × Value ν)) :
    ∃ front, stringify format (.object fields) = front ++ [unit '\x7d'] := by
  cases fields with
  | nil => exact ⟨[unit '\x7b'], by rw [stringify]; rfl⟩
  | cons field fields =>
      refine ⟨unit '\x7b' :: (quote field.1 ++ unit ':' :: stringify format field.2 ++
        stringifyFields format fields), ?_⟩
      rw [stringify, List.cons_append]

/-! ## Reading -/

def isWhitespace (c : UInt16) : Bool := c = 32 || c = 9 || c = 10 || c = 13

def skipWhitespace (text : Text) : Text := text.dropWhile isWhitespace

def hexValue (c : UInt16) : Option ℕ :=
  if isDigit c then some (c.toNat - 48)
  else if unit 'a' ≤ c && c ≤ unit 'f' then some (c.toNat - 87)
  else if unit 'A' ≤ c && c ≤ unit 'F' then some (c.toNat - 55)
  else none

def readHex (h₁ h₂ h₃ h₄ : UInt16) : Option UInt16 := do
  let a ← hexValue h₁
  let b ← hexValue h₂
  let c ← hexValue h₃
  let d ← hexValue h₄
  return (a * 4096 + b * 256 + c * 16 + d).toUInt16

def readEscape (letter : UInt16) : Option UInt16 :=
  if letter = unit '/' then some letter
  else (simpleEscapes.find? fun escape => escape.1 = letter).map Prod.snd

def readString : Text → Option (Text × Text)
  | [] => none
  | c :: text =>
      if c = unit '"' then some ([], text)
      else if c = unit '\\' then
        match text with
        | [] => none
        | letter :: text =>
            if letter = unit 'u' then
              match text with
              | h₁ :: h₂ :: h₃ :: h₄ :: text =>
                  (readHex h₁ h₂ h₃ h₄).bind fun c => (readString text).map (Prod.map (c :: ·) id)
              | _ => none
            else
              (readEscape letter).bind fun c => (readString text).map (Prod.map (c :: ·) id)
      else if c < 32 then none
      else (readString text).map (Prod.map (c :: ·) id)

def expect (pattern text : Text) : Option Text :=
  if pattern <+: text then some (text.drop pattern.length) else none

mutual

def readValue : ℕ → Text → Option (Value ν × Text)
  | 0, _ => none
  | fuel + 1, text =>
      match skipWhitespace text with
      | [] => none
      | c :: text =>
          if c = unit '"' then (readString text).map (Prod.map .string id)
          else if c = unit '[' then
            match skipWhitespace text with
            | [] => none
            | c' :: text' =>
                if c' = unit ']' then some (.array [], text')
                else do
                  let (element, rest) ← readValue fuel text
                  let (elements, rest) ← readElements fuel rest
                  return (.array (element :: elements), rest)
          else if c = unit '\x7b' then
            match skipWhitespace text with
            | [] => none
            | c' :: text' =>
                if c' = unit '\x7d' then some (.object [], text')
                else do
                  let (field, rest) ← readField fuel text
                  let (fields, rest) ← readFields fuel rest
                  return (.object (field :: fields), rest)
          else if c = unit 'n' then (expect (ascii "ull") text).map fun rest => (.null, rest)
          else if c = unit 't' then
            (expect (ascii "rue") text).map fun rest => (.bool true, rest)
          else if c = unit 'f' then
            (expect (ascii "alse") text).map fun rest => (.bool false, rest)
          else (readNumber (c :: text)).map (Prod.map (.number ∘ format.ofText) id)

def readElements : ℕ → Text → Option (List (Value ν) × Text)
  | 0, _ => none
  | fuel + 1, text =>
      match skipWhitespace text with
      | [] => none
      | c :: text =>
          if c = unit ']' then some ([], text)
          else if c = unit ',' then do
            let (element, rest) ← readValue fuel text
            let (elements, rest) ← readElements fuel rest
            return (element :: elements, rest)
          else none

def readField : ℕ → Text → Option ((Text × Value ν) × Text)
  | 0, _ => none
  | fuel + 1, text => do
      let text ← expect (ascii "\"") (skipWhitespace text)
      let (key, text) ← readString text
      let text ← expect (ascii ":") (skipWhitespace text)
      let (value, rest) ← readValue fuel text
      return ((key, value), rest)

def readFields : ℕ → Text → Option (List (Text × Value ν) × Text)
  | 0, _ => none
  | fuel + 1, text =>
      match skipWhitespace text with
      | [] => none
      | c :: text =>
          if c = unit '\x7d' then some ([], text)
          else if c = unit ',' then do
            let (field, rest) ← readField fuel text
            let (fields, rest) ← readFields fuel rest
            return (field :: fields, rest)
          else none

end

def parse (text : Text) : Option (Value ν) :=
  match readValue format (text.length + 1) text with
  | some (value, rest) => if skipWhitespace rest = [] then some value else none
  | none => none

/-! ## Texts are read back -/

theorem hexValue_hexDigit {n : ℕ} (h : n < 16) : hexValue (hexDigit n) = some n := by
  have hall : ∀ n < 16, hexValue (hexDigit n) = some n := by decide
  exact hall n h

theorem readHex_hexDigits (c : UInt16) :
    readHex (hexDigit (c.toNat / 4096)) (hexDigit (c.toNat / 256 % 16))
      (hexDigit (c.toNat / 16 % 16)) (hexDigit (c.toNat % 16)) = some c := by
  have hc := c.toNat_lt
  have hvalue : c.toNat / 4096 * 4096 + c.toNat / 256 % 16 * 256 + c.toNat / 16 % 16 * 16 +
      c.toNat % 16 = c.toNat := by omega
  unfold readHex
  rw [hexValue_hexDigit (by omega), hexValue_hexDigit (by omega), hexValue_hexDigit (by omega),
    hexValue_hexDigit (by omega)]
  change some (_ : ℕ).toUInt16 = some c
  rw [hvalue]
  exact congrArg some UInt16.ofNat_toNat

variable {text rest : Text} {c : UInt16}

theorem readString_unicodeEscape (c : UInt16) (text : Text) :
    readString (unicodeEscape c ++ text) = (readString text).map (Prod.map (c :: ·) id) := by
  have hread := readHex_hexDigits c
  change (readHex _ _ _ _).bind _ = _
  rw [hread]
  rfl

theorem readString_simpleEscape {escape : UInt16 × UInt16} (h : escape ∈ simpleEscapes)
    (text : Text) :
    readString (unit '\\' :: escape.1 :: text) =
      (readString text).map (Prod.map (escape.2 :: ·) id) := by
  have hread : ∀ escape ∈ simpleEscapes,
      escape.1 ≠ unit 'u' ∧ readEscape escape.1 = some escape.2 := forall_of_all (by decide)
  obtain ⟨hu, hvalue⟩ := hread escape h
  have hquote : unit '\\' ≠ unit '"' := by decide
  rw [readString.eq_def]
  dsimp only
  rw [if_neg hquote, if_pos rfl, if_neg hu, hvalue]
  rfl

theorem readString_cons (hescape : (simpleEscapes.find? fun escape => escape.2 = c) = none)
    (hcontrol : ¬c < 32) (text : Text) :
    readString (c :: text) = (readString text).map (Prod.map (c :: ·) id) := by
  have hnone := List.find?_eq_none.mp hescape
  have hquote : c ≠ unit '"' := fun h => hnone (unit '"', unit '"') (by decide) (by simp [h])
  have hbackslash : c ≠ unit '\\' :=
    fun h => hnone (unit '\\', unit '\\') (by decide) (by simp [h])
  rw [readString.eq_def]
  dsimp only
  rw [if_neg hquote, if_neg hbackslash, if_neg hcontrol]

theorem readString_escapeUnit (c : UInt16) (text : Text) :
    readString (escapeUnit c ++ text) = (readString text).map (Prod.map (c :: ·) id) := by
  unfold escapeUnit
  cases hescape : simpleEscapes.find? fun escape => escape.2 = c with
  | some escape =>
      have hvalue : escape.2 = c := by simpa using List.find?_some hescape
      rw [← hvalue]
      exact readString_simpleEscape (List.mem_of_find?_eq_some hescape) text
  | none =>
      dsimp only
      split
      · exact readString_unicodeEscape c text
      · next hcontrol => exact readString_cons hescape hcontrol text

theorem readString_lead (h : isLead c = true) (text : Text) :
    readString (c :: text) = (readString text).map (Prod.map (c :: ·) id) := by
  have hc : 0xd800 ≤ c := by
    unfold isLead at h
    rw [Bool.and_eq_true, decide_eq_true_eq] at h
    exact h.1
  refine readString_cons (List.find?_eq_none.mpr fun escape hescape hsame => ?_) ?_ text
  · have hall : ∀ escape ∈ simpleEscapes, ¬0xd800 ≤ escape.2 := forall_of_all (by decide)
    exact hall escape hescape (of_decide_eq_true hsame ▸ hc)
  · have hlow : (32 : UInt16) ≤ 0xd800 := by decide
    exact UInt16.not_lt.mpr (UInt16.le_trans hlow hc)

theorem readString_escape (afterLead : Bool) (text rest : Text) :
    readString (escape afterLead text ++ unit '"' :: rest) = some (text, rest) := by
  induction text generalizing afterLead with
  | nil =>
      rw [escape, List.nil_append, readString.eq_def]
      exact if_pos rfl
  | cons c text ih =>
      unfold escape
      split
      · next hlead =>
          split
          · rw [List.cons_append, readString_lead hlead, ih]
            rfl
          · rw [List.append_assoc, readString_unicodeEscape, ih]
            rfl
      · split
        · rw [List.append_assoc, readString_unicodeEscape, ih]
          rfl
        · rw [List.append_assoc, readString_escapeUnit, ih]
          rfl

/-! ## Numbers of one digit -/

theorem readOptional_of_notMem {units : Text} (h : ∀ c, text.head? = some c → c ∉ units) :
    readOptional units text = ([], text) := by
  cases text with
  | nil => rfl
  | cons c text => rw [readOptional, if_neg (h c rfl)]

theorem readNumber_digit (hdigit : isDigit c = true) (hrest : Ends rest) :
    readNumber (c :: rest) = some ([c], rest) := by
  have hminus : readOptional (ascii "-") (c :: rest) = ([], c :: rest) := by
    refine readOptional_of_notMem ?_
    rintro c' ⟨⟩ hmem
    rw [List.mem_singleton.mp hmem] at hdigit
    exact absurd hdigit (by decide)
  have hdigits : readDigits rest = ([], rest) := by
    cases rest with
    | nil => rfl
    | cons c' rest => rw [readDigits, if_neg (by rw [(hrest c' rfl).1]; exact Bool.false_ne_true)]
  have hinteger : readInteger (c :: rest) = some ([c], rest) := by
    unfold readInteger readSomeDigits readDigits
    dsimp only
    rw [if_pos hdigit, hdigits]
    exact ite_self _
  have hpart : ∀ marks signs, (∀ m ∈ marks, m ∈ ascii ".eE") →
      readPart marks signs rest = some ([], rest) := by
    intro marks signs hmarks
    unfold readPart
    rw [readOptional_of_notMem fun c' hc' hmem => (hrest c' hc').2 (hmarks c' hmem)]
  unfold readNumber
  rw [hminus]
  dsimp only
  rw [hinteger]
  dsimp only [Option.bind_eq_bind, Option.bind_some]
  rw [hpart _ _ (forall_of_all (by decide))]
  dsimp only [Option.bind_some]
  rw [hpart _ _ (forall_of_all (by decide))]
  rfl

/-! ## Values are read back -/

mutual

/-- The value that is read back: numbers as they are written, and `null` for those that cannot
be. -/
def stored : Value ν → Value ν
  | .null => .null
  | .bool value => .bool value
  | .number value =>
      if format.isFinite value then .number (format.ofText (format.toText value)) else .null
  | .string text => .string text
  | .array elements => .array (storedElements elements)
  | .object fields => .object (storedFields fields)

def storedElements : List (Value ν) → List (Value ν)
  | [] => []
  | element :: elements => stored element :: storedElements elements

def storedFields : List (Text × Value ν) → List (Text × Value ν)
  | [] => []
  | (key, value) :: fields => (key, stored value) :: storedFields fields

end

theorem ends_cons (h : c ∈ ascii ",]\x7d") (rest : Text) : Ends (c :: rest) := by
  have hall : ∀ c ∈ ascii ",]\x7d", isDigit c = false ∧ c ∉ ascii ".eE" :=
    forall_of_all (by decide)
  rintro c' ⟨⟩
  exact hall c h

theorem skipWhitespace_cons (h : isWhitespace c = false) (text : Text) :
    skipWhitespace (c :: text) = c :: text := by
  unfold skipWhitespace
  rw [List.dropWhile_cons_of_neg]
  rw [h]
  exact Bool.false_ne_true

theorem head_of_readNumber {number : Text × Text} (h : readNumber (c :: text) = some number) :
    c = unit '-' ∨ isDigit c = true := by
  by_cases hminus : c = unit '-'
  · exact .inl hminus
  · by_cases hdigit : isDigit c = true
    · exact .inr hdigit
    · exfalso
      have hzero : c ≠ unit '0' := by
        rintro rfl
        exact hdigit (by decide)
      have hsign : readOptional (ascii "-") (c :: text) = ([], c :: text) := by
        have hmem : c ∉ ascii "-" := fun h => hminus (List.mem_singleton.mp h)
        rw [readOptional, if_neg hmem]
      have hinteger : readInteger (c :: text) = none := by
        unfold readInteger readSomeDigits readDigits
        dsimp only
        rw [if_neg hzero, if_neg hdigit]
      unfold readNumber at h
      rw [hsign] at h
      dsimp only at h
      rw [hinteger] at h
      exact absurd h.symm (Option.some_ne_none number)

theorem readValue_number {number rest : Text} (fuel : ℕ)
    (h : readNumber text = some (number, rest)) :
    readValue format (fuel + 1) text = some (.number (format.ofText number), rest) := by
  cases text with
  | nil => exact absurd h.symm (Option.some_ne_none _)
  | cons c text =>
      have hhead := head_of_readNumber h
      have hother : ∀ c' : UInt16, c' ∈ ascii " \t\n\r\"[\x7bntf" → c ≠ c' := by
        have hall : ∀ c' ∈ ascii " \t\n\r\"[\x7bntf", c' ≠ unit '-' ∧ isDigit c' ≠ true :=
          forall_of_all (by decide)
        rintro c' hc' rfl
        rcases hhead with hminus | hdigit
        · exact (hall c hc').1 hminus
        · exact (hall c hc').2 hdigit
      have hspace : isWhitespace c = false := by
        simp [isWhitespace, hother 32 (by decide), hother 9 (by decide), hother 10 (by decide),
          hother 13 (by decide)]
      rw [readValue.eq_def]
      dsimp only
      rw [skipWhitespace_cons hspace]
      dsimp only
      rw [if_neg (hother _ (by decide)), if_neg (hother _ (by decide)),
        if_neg (hother _ (by decide)), if_neg (hother _ (by decide)),
        if_neg (hother _ (by decide)), if_neg (hother _ (by decide)), h]
      rfl

theorem head_of_readValue {fuel : ℕ} {read : Value ν × Text}
    (h : readValue format fuel text = some read) :
    ∃ c text', skipWhitespace text = c :: text' ∧ c ≠ unit ']' := by
  cases fuel with
  | zero => exact absurd h.symm (Option.some_ne_none read)
  | succ fuel =>
      cases hskip : skipWhitespace text with
      | nil =>
          rw [readValue.eq_def] at h
          dsimp only at h
          rw [hskip] at h
          exact absurd h.symm (Option.some_ne_none read)
      | cons c text' =>
          refine ⟨c, text', rfl, ?_⟩
          rintro rfl
          have hnumber : readNumber (unit ']' :: text') = none := by
            cases hread : readNumber (unit ']' :: text') with
            | none => rfl
            | some number => exact absurd (head_of_readNumber hread) (by decide)
          rw [readValue.eq_def] at h
          dsimp only at h
          rw [hskip] at h
          dsimp only at h
          rw [if_neg (by decide), if_neg (by decide), if_neg (by decide), if_neg (by decide),
            if_neg (by decide), if_neg (by decide), hnumber] at h
          exact absurd h.symm (Option.some_ne_none read)

theorem quote_append (text rest : Text) :
    quote text ++ rest = unit '"' :: (escape false text ++ unit '"' :: rest) := by
  simp [quote]

theorem readField_quote {value : Value ν} {written rest : Text} {fuel : ℕ} (key : Text)
    (h : readValue format fuel written = some (value, rest)) :
    readField format (fuel + 1) (quote key ++ unit ':' :: written) =
      some ((key, value), rest) := by
  rw [quote_append]
  change ((readString (escape false key ++ unit '"' :: unit ':' :: written)).bind _) = _
  rw [readString_escape]
  change ((readValue format fuel written).bind _) = _
  rw [h]
  rfl

section Sequences

variable {fuel : ℕ} {key written : Text} {value : Value ν} {field : Text × Value ν}

theorem readValue_bracket (h : readValue format fuel text = some (value, rest)) :
    readValue format (fuel + 1) (unit '[' :: text) =
      (readElements format fuel rest).map
        (Prod.map (fun values => .array (value :: values)) id) := by
  obtain ⟨c, text', hskip, hc⟩ := head_of_readValue format h
  rw [readValue.eq_def]
  dsimp only
  rw [skipWhitespace_cons (by decide)]
  dsimp only
  rw [if_neg (by decide), if_pos rfl, hskip]
  dsimp only
  rw [if_neg hc, h]
  cases hmore : readElements format fuel rest with
  | none => simp [hmore]
  | some more => simp [hmore, Prod.map]

theorem readElements_comma (h : readValue format fuel text = some (value, rest)) :
    readElements format (fuel + 1) (unit ',' :: text) =
      (readElements format fuel rest).map (Prod.map (value :: ·) id) := by
  rw [readElements.eq_def]
  dsimp only
  rw [skipWhitespace_cons (by decide)]
  dsimp only
  rw [if_neg (by decide), if_pos rfl, h]
  cases hmore : readElements format fuel rest with
  | none => simp [hmore]
  | some more => simp [hmore, Prod.map]

theorem readValue_brace (h : readField format fuel (quote key ++ written) = some (field, rest)) :
    readValue format (fuel + 1) (unit '\x7b' :: (quote key ++ written)) =
      (readFields format fuel rest).map
        (Prod.map (fun fields => .object (field :: fields)) id) := by
  have hskip : skipWhitespace (quote key ++ written) = quote key ++ written := by
    rw [quote_append, skipWhitespace_cons (by decide)]
  rw [readValue.eq_def]
  dsimp only
  rw [skipWhitespace_cons (by decide)]
  dsimp only
  rw [if_neg (by decide), if_neg (by decide), if_pos rfl, hskip, h]
  rw [quote_append]
  dsimp only
  rw [if_neg (by decide)]
  cases hmore : readFields format fuel rest with
  | none => simp [hmore]
  | some more => simp [hmore, Prod.map]

theorem readFields_comma (h : readField format fuel text = some (field, rest)) :
    readFields format (fuel + 1) (unit ',' :: text) =
      (readFields format fuel rest).map (Prod.map (field :: ·) id) := by
  rw [readFields.eq_def]
  dsimp only
  rw [skipWhitespace_cons (by decide)]
  dsimp only
  rw [if_neg (by decide), if_pos rfl, h]
  cases hmore : readFields format fuel rest with
  | none => simp [hmore]
  | some more => simp [hmore, Prod.map]

theorem ends_elements (elements : List (Value ν)) (rest : Text) :
    Ends (stringifyElements format elements ++ unit ']' :: rest) := by
  cases elements with
  | nil => exact ends_cons (by decide) _
  | cons element elements => exact ends_cons (by decide) _

theorem ends_fields (fields : List (Text × Value ν)) (rest : Text) :
    Ends (stringifyFields format fields ++ unit '\x7d' :: rest) := by
  cases fields with
  | nil => exact ends_cons (by decide) _
  | cons field fields => exact ends_cons (by decide) _

end Sequences

mutual

/-- What is written is read back, with enough fuel. -/
theorem readValue_stringify : ∀ (value : Value ν) (fuel : ℕ) (rest : Text),
    (stringify format value).length ≤ fuel → Ends rest →
      readValue format (fuel + 1) (stringify format value ++ rest) =
        some (stored format value, rest)
  | .null, fuel, rest, _, _ => rfl
  | .bool true, fuel, rest, _, _ => rfl
  | .bool false, fuel, rest, _, _ => rfl
  | .number value, fuel, rest, _, hrest => by
      unfold stringify stored
      by_cases hfinite : format.isFinite value = true
      · rw [if_pos hfinite, if_pos hfinite]
        exact readValue_number format fuel (format.readNumber_toText value hfinite rest hrest)
      · rw [if_neg hfinite, if_neg hfinite]
        rfl
  | .string text, fuel, rest, _, _ => by
      unfold stringify stored
      rw [quote_append]
      change (readString (escape false text ++ unit '"' :: rest)).map _ = _
      rw [readString_escape]
      rfl
  | .array [], fuel, rest, _, _ => rfl
  | .array (element :: elements), fuel, rest, hfuel, _ => by
      simp only [stringify, List.length_cons, List.length_append, List.length_nil] at hfuel
      obtain ⟨fuel, rfl⟩ : ∃ fuel', fuel = fuel' + 1 := ⟨fuel - 1, by omega⟩
      have hfirst := readValue_stringify element fuel
        (stringifyElements format elements ++ unit ']' :: rest) (by omega)
        (ends_elements format elements rest)
      have hmore := readElements_stringify elements fuel rest (by omega)
      simp only [stringify, List.cons_append, List.append_assoc, List.nil_append]
      rw [readValue_bracket format hfirst, hmore]
      rfl
  | .object [], fuel, rest, _, _ => rfl
  | .object ((key, value) :: fields), fuel, rest, hfuel, _ => by
      simp only [stringify, quote, List.length_cons, List.length_append, List.length_nil] at hfuel
      obtain ⟨fuel, rfl⟩ : ∃ fuel', fuel = fuel' + 1 + 1 := ⟨fuel - 2, by omega⟩
      have hvalue := readValue_stringify value fuel
        (stringifyFields format fields ++ unit '\x7d' :: rest) (by omega)
        (ends_fields format fields rest)
      have hfield := readField_quote format key hvalue
      have hmore := readFields_stringify fields (fuel + 1) rest (by omega)
      simp only [stringify, List.cons_append, List.append_assoc, List.nil_append]
      rw [readValue_brace format hfield, hmore]
      rfl

theorem readElements_stringify : ∀ (elements : List (Value ν)) (fuel : ℕ) (rest : Text),
    (stringifyElements format elements).length ≤ fuel →
      readElements format (fuel + 1) (stringifyElements format elements ++ unit ']' :: rest) =
        some (storedElements format elements, rest)
  | [], fuel, rest, _ => rfl
  | element :: elements, fuel, rest, hfuel => by
      simp only [stringifyElements, List.length_cons, List.length_append] at hfuel
      obtain ⟨fuel, rfl⟩ : ∃ fuel', fuel = fuel' + 1 := ⟨fuel - 1, by omega⟩
      have hfirst := readValue_stringify element fuel
        (stringifyElements format elements ++ unit ']' :: rest) (by omega)
        (ends_elements format elements rest)
      have hmore := readElements_stringify elements fuel rest (by omega)
      simp only [stringifyElements, List.cons_append, List.append_assoc]
      rw [readElements_comma format hfirst, hmore]
      rfl

theorem readFields_stringify : ∀ (fields : List (Text × Value ν)) (fuel : ℕ) (rest : Text),
    (stringifyFields format fields).length ≤ fuel →
      readFields format (fuel + 1) (stringifyFields format fields ++ unit '\x7d' :: rest) =
        some (storedFields format fields, rest)
  | [], fuel, rest, _ => rfl
  | (key, value) :: fields, fuel, rest, hfuel => by
      simp only [stringifyFields, quote, List.length_cons, List.length_append,
        List.length_nil] at hfuel
      obtain ⟨fuel, rfl⟩ : ∃ fuel', fuel = fuel' + 1 + 1 := ⟨fuel - 2, by omega⟩
      have hvalue := readValue_stringify value fuel
        (stringifyFields format fields ++ unit '\x7d' :: rest) (by omega)
        (ends_fields format fields rest)
      have hfield := readField_quote format key hvalue
      have hmore := readFields_stringify fields (fuel + 1) rest (by omega)
      simp only [stringifyFields, List.cons_append, List.append_assoc]
      rw [readFields_comma format hfield, hmore]
      rfl

end

mutual

def numbers : Value ν → List ν
  | .null | .bool _ | .string _ => []
  | .number value => [value]
  | .array elements => numbersOfElements elements
  | .object fields => numbersOfFields fields

def numbersOfElements : List (Value ν) → List ν
  | [] => []
  | element :: elements => numbers element ++ numbersOfElements elements

def numbersOfFields : List (Text × Value ν) → List ν
  | [] => []
  | (_, value) :: fields => numbers value ++ numbersOfFields fields

end

def NumberFormat.Keeps (x : ν) : Prop :=
  format.isFinite x = true ∧ format.ofText (format.toText x) = x

mutual

theorem stored_eq_iff : ∀ value : Value ν,
    stored format value = value ↔ ∀ x ∈ numbers value, format.Keeps x
  | .null => iff_of_true rfl (fun x hx => absurd hx List.not_mem_nil)
  | .bool _ => iff_of_true rfl (fun x hx => absurd hx List.not_mem_nil)
  | .number value => by
      unfold stored numbers NumberFormat.Keeps
      rw [List.forall_mem_singleton]
      split
      · next hfinite => simp [hfinite]
      · next hfinite => simp [hfinite]
  | .string _ => iff_of_true rfl (fun x hx => absurd hx List.not_mem_nil)
  | .array elements => by
      unfold stored numbers
      rw [Value.array.injEq, storedElements_eq_iff elements]
  | .object fields => by
      unfold stored numbers
      rw [Value.object.injEq, storedFields_eq_iff fields]

theorem storedElements_eq_iff : ∀ elements : List (Value ν),
    storedElements format elements = elements ↔
      ∀ x ∈ numbersOfElements elements, format.Keeps x
  | [] => iff_of_true rfl (fun x hx => absurd hx List.not_mem_nil)
  | element :: elements => by
      unfold storedElements numbersOfElements
      rw [List.cons.injEq, List.forall_mem_append, stored_eq_iff element,
        storedElements_eq_iff elements]

theorem storedFields_eq_iff : ∀ fields : List (Text × Value ν),
    storedFields format fields = fields ↔ ∀ x ∈ numbersOfFields fields, format.Keeps x
  | [] => iff_of_true rfl (fun x hx => absurd hx List.not_mem_nil)
  | (key, value) :: fields => by
      unfold storedFields numbersOfFields
      rw [List.cons.injEq, List.forall_mem_append, Prod.mk.injEq, stored_eq_iff value,
        storedFields_eq_iff fields, eq_self_iff_true, true_and]

end

theorem parse_stringify (value : Value ν) :
    parse format (stringify format value) = some (stored format value) := by
  have hread := readValue_stringify format value _ [] le_rfl (by rintro c ⟨⟩)
  rw [List.append_nil] at hread
  unfold parse
  rw [hread]
  rfl

/-! ## Where a pattern occurs -/

def isPlain (c : UInt16) : Bool :=
  c ≠ unit '"' && c ≠ unit '\\' && 32 ≤ c && !isLead c && !isTrail c

def escapeUnits : Text := ascii "\\\"bfnrtu0123456789abcdef"

theorem exists_unicodeEscape (c : UInt16) :
    ∃ letters, (∀ letter ∈ letters, letter ∈ escapeUnits) ∧
      unicodeEscape c = unit '\\' :: letters := by
  have hc := c.toNat_lt
  have hdigit : ∀ n < 16, hexDigit n ∈ escapeUnits := by decide
  refine ⟨(unicodeEscape c).tail, ?_, rfl⟩
  intro letter hletter
  change letter ∈ [unit 'u', _, _, _, _] at hletter
  simp only [List.mem_cons, List.not_mem_nil, or_false] at hletter
  rcases hletter with rfl | rfl | rfl | rfl | rfl
  · decide
  · exact hdigit _ (by omega)
  · exact hdigit _ (by omega)
  · exact hdigit _ (by omega)
  · exact hdigit _ (by omega)

theorem escapeUnit_eq_or (c : UInt16) :
    escapeUnit c = [c] ∨ isPlain c = false ∧
      ∃ letters, (∀ letter ∈ letters, letter ∈ escapeUnits) ∧
        escapeUnit c = unit '\\' :: letters := by
  unfold escapeUnit
  cases hescape : simpleEscapes.find? fun escape => escape.2 = c with
  | some escape =>
      have hall : ∀ escape ∈ simpleEscapes,
          isPlain escape.2 = false ∧ escape.1 ∈ escapeUnits := forall_of_all (by decide)
      have hvalue : escape.2 = c := by simpa using List.find?_some hescape
      obtain ⟨hplain, hletter⟩ := hall escape (List.mem_of_find?_eq_some hescape)
      refine .inr ⟨hvalue ▸ hplain, [escape.1], ?_, rfl⟩
      rintro letter hmem
      rwa [List.mem_singleton.mp hmem]
  | none =>
      dsimp only
      split
      · next hcontrol =>
          refine .inr ⟨?_, exists_unicodeEscape c⟩
          have hlow : ¬32 ≤ c := UInt16.not_le.mpr hcontrol
          simp [isPlain, hlow]
      · exact .inl rfl

theorem escape_cons (afterLead : Bool) (c : UInt16) (text : Text) :
    ∃ afterLead', escape afterLead (c :: text) = c :: escape afterLead' text ∨
      isPlain c = false ∧ ∃ letters, (∀ letter ∈ letters, letter ∈ escapeUnits) ∧
        escape afterLead (c :: text) = unit '\\' :: (letters ++ escape afterLead' text) := by
  obtain ⟨letters, hletters, hunicode⟩ := exists_unicodeEscape c
  rw [escape]
  by_cases hlead : isLead c = true
  · have hplain : isPlain c = false := by simp [isPlain, hlead]
    rw [if_pos hlead]
    split
    · exact ⟨true, .inl rfl⟩
    · refine ⟨false, .inr ⟨hplain, letters, hletters, ?_⟩⟩
      rw [hunicode, List.cons_append]
  · rw [if_neg hlead]
    split
    · next htrail =>
        have hplain : isPlain c = false := by
          rw [Bool.and_eq_true] at htrail
          simp [isPlain, htrail.1]
        refine ⟨false, .inr ⟨hplain, letters, hletters, ?_⟩⟩
        rw [hunicode, List.cons_append]
    · rcases escapeUnit_eq_or c with hsame | ⟨hplain, letters', hletters', hescape⟩
      · refine ⟨false, .inl ?_⟩
        rw [hsame, List.singleton_append]
      · refine ⟨false, .inr ⟨hplain, letters', hletters', ?_⟩⟩
        rw [hescape, List.cons_append]

theorem prefix_escape_iff {pattern : Text} (hpattern : ∀ c ∈ pattern, isPlain c = true)
    (afterLead : Bool) (text : Text) : pattern <+: escape afterLead text ↔ pattern <+: text := by
  induction text generalizing pattern afterLead with
  | nil => rw [escape]
  | cons c text ih =>
      cases pattern with
      | nil => exact iff_of_true List.nil_prefix List.nil_prefix
      | cons head pattern =>
          rw [List.forall_mem_cons] at hpattern
          obtain ⟨afterLead', hsame | ⟨hplain, letters, -, hescape⟩⟩ := escape_cons afterLead c text
          · rw [hsame, List.cons_prefix_cons, List.cons_prefix_cons, ih hpattern.2]
          · have hne : head ≠ c := by
              rintro rfl
              exact absurd (hpattern.1.symm.trans hplain) (by decide)
            have hbackslash : head ≠ unit '\\' := by
              rintro rfl
              exact absurd hpattern.1 (by decide)
            rw [hescape, List.cons_prefix_cons, List.cons_prefix_cons]
            exact iff_of_false (fun h => hbackslash h.1) fun h => hne h.1

theorem infix_escape_iff {head : UInt16} {pattern : Text}
    (hpattern : ∀ c ∈ head :: pattern, isPlain c = true) (hhead : head ∉ escapeUnits)
    (afterLead : Bool) (text : Text) :
    head :: pattern <:+: escape afterLead text ↔ head :: pattern <:+: text := by
  induction text generalizing afterLead with
  | nil => rw [escape]
  | cons c text ih =>
      obtain ⟨afterLead', hsame | ⟨hplain, letters, hletters, hescape⟩⟩ :=
        escape_cons afterLead c text
      · have hbegins := prefix_escape_iff hpattern afterLead (c :: text)
        rw [hsame] at hbegins ⊢
        rw [List.infix_cons_iff, List.infix_cons_iff, hbegins, ih]
      · have hne : head ≠ c := by
          rintro rfl
          exact absurd ((hpattern head List.mem_cons_self).symm.trans hplain) (by decide)
        have hnotMem : head ∉ unit '\\' :: letters := by
          intro hmem
          rcases List.mem_cons.mp hmem with rfl | hletter
          · exact hhead (by decide)
          · exact hhead (hletters head hletter)
        rw [hescape, ← List.cons_append, infix_append_iff_of_notMem hnotMem, ih,
          infix_cons_iff_of_ne hne]

def numberUnits : Text := ascii "0123456789+-.eE"

theorem mem_numberUnits_of_isDigit (h : isDigit c = true) : c ∈ numberUnits := by
  have hall : ∀ n, 48 ≤ n → n ≤ 57 → Nat.toUInt16 n ∈ numberUnits := by
    intro n h₁ h₂
    have hcases : ∀ m < 10, Nat.toUInt16 (m + 48) ∈ numberUnits := by decide
    obtain ⟨m, rfl⟩ : ∃ m, n = m + 48 := ⟨n - 48, by omega⟩
    exact hcases m (by omega)
  unfold isDigit at h
  rw [Bool.and_eq_true, decide_eq_true_eq, decide_eq_true_eq] at h
  have hc := hall c.toNat (UInt16.le_iff_toNat_le.mp h.1) (UInt16.le_iff_toNat_le.mp h.2)
  have hsame : c.toNat.toUInt16 = c := UInt16.ofNat_toNat
  rwa [hsame] at hc

theorem mem_readDigits (text : Text) : ∀ c ∈ (readDigits text).1, c ∈ numberUnits := by
  induction text with
  | nil => exact fun c h => absurd h List.not_mem_nil
  | cons c' text ih =>
      unfold readDigits
      split
      · next hdigit =>
          intro c h
          rcases List.mem_cons.mp h with rfl | hmore
          · exact mem_numberUnits_of_isDigit hdigit
          · exact ih c hmore
      · exact fun c h => absurd h List.not_mem_nil

theorem mem_readSomeDigits {digits : Text} (h : readSomeDigits text = some (digits, rest)) :
    ∀ c ∈ digits, c ∈ numberUnits := by
  have hall := mem_readDigits text
  unfold readSomeDigits at h
  split at h
  · exact absurd h.symm (Option.some_ne_none _)
  · next hread =>
      cases h
      rwa [hread] at hall

theorem mem_readOptional {units : Text} (hunits : ∀ c ∈ units, c ∈ numberUnits) (text : Text) :
    ∀ c ∈ (readOptional units text).1, c ∈ numberUnits := by
  unfold readOptional
  split
  · exact fun c h => absurd h List.not_mem_nil
  · split
    · next hmem =>
        intro c h
        rw [List.mem_singleton.mp h]
        exact hunits _ hmem
    · exact fun c h => absurd h List.not_mem_nil

theorem mem_readInteger {digits : Text} (h : readInteger text = some (digits, rest)) :
    ∀ c ∈ digits, c ∈ numberUnits := by
  unfold readInteger at h
  split at h
  · exact absurd h.symm (Option.some_ne_none _)
  · split at h
    · next hzero =>
        cases h
        intro c h
        rw [List.mem_singleton.mp h, hzero]
        decide
    · exact mem_readSomeDigits h

theorem mem_readPart {marks signs part : Text} (hmarks : ∀ c ∈ marks, c ∈ numberUnits)
    (hsigns : ∀ c ∈ signs, c ∈ numberUnits) (h : readPart marks signs text = some (part, rest)) :
    ∀ c ∈ part, c ∈ numberUnits := by
  have hmark := mem_readOptional hmarks text
  unfold readPart at h
  split at h
  · cases h
    exact fun c h => absurd h List.not_mem_nil
  · next mark text' _ hread =>
      rw [hread] at hmark
      simp only [Option.bind_eq_bind, Option.bind_eq_some_iff] at h
      obtain ⟨⟨digits, rest'⟩, hdigits, hsome⟩ := h
      cases hsome
      intro c hc
      rcases List.mem_append.mp hc with hfront | hback
      · rcases List.mem_append.mp hfront with hc | hc
        · exact hmark c hc
        · exact mem_readOptional hsigns text' c hc
      · exact mem_readSomeDigits hdigits c hback

theorem mem_readNumber {number : Text} (h : readNumber text = some (number, rest)) :
    ∀ c ∈ number, c ∈ numberUnits := by
  unfold readNumber at h
  simp only [Option.bind_eq_bind, Option.bind_eq_some_iff] at h
  obtain ⟨⟨integer, text₁⟩, hinteger, ⟨fraction, text₂⟩, hfraction, ⟨exponent, text₃⟩, hexponent,
    hsome⟩ := h
  cases hsome
  intro c hc
  rcases List.mem_append.mp hc with hfront | hc
  · rcases List.mem_append.mp hfront with hfront | hc
    · rcases List.mem_append.mp hfront with hc | hc
      · exact mem_readOptional (forall_of_all (by decide)) text c hc
      · exact mem_readInteger hinteger c hc
    · exact mem_readPart (forall_of_all (by decide)) (forall_of_all (by decide)) hfraction c hc
  · exact mem_readPart (forall_of_all (by decide)) (forall_of_all (by decide)) hexponent c hc

mutual

def texts : Value ν → List Text
  | .null | .bool _ | .number _ => []
  | .string text => [text]
  | .array elements => textsOfElements elements
  | .object fields => textsOfFields fields

def textsOfElements : List (Value ν) → List Text
  | [] => []
  | element :: elements => texts element ++ textsOfElements elements

def textsOfFields : List (Text × Value ν) → List Text
  | [] => []
  | (key, value) :: fields => key :: (texts value ++ textsOfFields fields)

end

def outerUnits : Text := numberUnits ++ ascii "nulltruefalse[]\x7b\x7d:,\""

/-- A pattern that occurs in written JSON inside its texts only: it is written there as it is, does
not begin like the rest of an escape, reaches over no separator, and contains something that does
not stand between the texts. -/
structure Inner (pattern : Text) : Prop where
  plain : ∀ c ∈ pattern, isPlain c = true
  head : ∀ c, pattern.head? = some c → c ∉ escapeUnits
  separators : ∀ c ∈ pattern, c ∉ ascii "[]\x7b\x7d:,"
  mark : ∃ c ∈ pattern, c ∉ outerUnits

section Occurrences

variable {pattern : Text}

theorem exists_append_iff {front back : List Text} :
    (∃ text ∈ front ++ back, pattern <:+: text) ↔
      (∃ text ∈ front, pattern <:+: text) ∨ ∃ text ∈ back, pattern <:+: text := by
  simp only [List.mem_append, or_and_right, exists_or]

variable (h : Inner pattern)

include h

theorem Inner.ne_nil : pattern ≠ [] := by
  rintro rfl
  obtain ⟨c, hc, -⟩ := h.mark
  exact absurd hc List.not_mem_nil

theorem not_infix_of_outer {text : Text} (htext : ∀ c ∈ text, c ∈ outerUnits) :
    ¬pattern <:+: text := by
  intro hoccurs
  obtain ⟨c, hc, houter⟩ := h.mark
  exact houter (htext c (hoccurs.mem hc))

theorem infix_append_separator_iff {front back : Text}
    (hc : c ∈ ascii "[]\x7b\x7d:,") :
    pattern <:+: front ++ c :: back ↔ pattern <:+: front ∨ pattern <:+: back :=
  infix_append_cons_iff (fun hmem => h.separators c hmem hc) h.ne_nil

theorem infix_separator_cons_iff {back : Text} (hc : c ∈ ascii "[]\x7b\x7d:,") :
    pattern <:+: c :: back ↔ pattern <:+: back := by
  rw [← List.nil_append (c :: back), infix_append_separator_iff h hc, List.infix_nil]
  exact or_iff_right h.ne_nil

theorem infix_quote_append_iff {text back : Text} :
    pattern <:+: quote text ++ back ↔ pattern <:+: text ∨ pattern <:+: back := by
  have hquote : unit '"' ∉ pattern := fun hmem => absurd (h.plain _ hmem) (by decide)
  rw [quote_append, ← List.nil_append (unit '"' :: _), infix_append_cons_iff hquote h.ne_nil,
    List.infix_nil, or_iff_right h.ne_nil, infix_append_cons_iff hquote h.ne_nil]
  refine or_congr_left ?_
  cases pattern with
  | nil => exact absurd rfl h.ne_nil
  | cons head pattern => exact infix_escape_iff h.plain (h.head head rfl) false text

theorem infix_outer_iff {text : Text} (htext : ∀ c ∈ text, c ∈ outerUnits) :
    pattern <:+: text ↔ ∃ t ∈ ([] : List Text), pattern <:+: t := by
  refine iff_of_false (not_infix_of_outer h htext) ?_
  rintro ⟨t, ht, -⟩
  exact absurd ht List.not_mem_nil

theorem infix_word_iff (word : Text)
    (hword : word.all (fun c => decide (c ∈ outerUnits)) = true) :
    pattern <:+: word ↔ ∃ t ∈ ([] : List Text), pattern <:+: t :=
  infix_outer_iff h (forall_of_all hword)

theorem infix_append_iff {front back : Text}
    (hback : ∀ c, back.head? = some c → c ∈ ascii "[]\x7b\x7d:,") :
    pattern <:+: front ++ back ↔ pattern <:+: front ∨ pattern <:+: back := by
  cases back with
  | nil => rw [List.append_nil, List.infix_nil, or_iff_left h.ne_nil]
  | cons c back =>
      have hc := hback c rfl
      rw [infix_append_separator_iff h hc, infix_separator_cons_iff h hc]

theorem infix_close_iff {front : Text} (hc : c ∈ ascii "[]\x7b\x7d:,") :
    pattern <:+: front ++ [c] ↔ pattern <:+: front := by
  rw [infix_append_separator_iff h hc, List.infix_nil, or_iff_left h.ne_nil]

theorem infix_field_iff {key written back : Text}
    (hback : ∀ c, back.head? = some c → c ∈ ascii "[]\x7b\x7d:,") :
    pattern <:+: quote key ++ unit ':' :: written ++ back ↔
      pattern <:+: key ∨ pattern <:+: written ∨ pattern <:+: back := by
  rw [List.append_assoc, infix_quote_append_iff h, List.cons_append,
    infix_separator_cons_iff h (by decide), infix_append_iff h hback]

omit h

theorem head_stringifyElements (elements : List (Value ν)) :
    ∀ c, (stringifyElements format elements).head? = some c → c ∈ ascii "[]\x7b\x7d:," := by
  cases elements with
  | nil => rintro c ⟨⟩
  | cons element elements =>
      rintro c ⟨⟩
      decide

theorem head_stringifyFields (fields : List (Text × Value ν)) :
    ∀ c, (stringifyFields format fields).head? = some c → c ∈ ascii "[]\x7b\x7d:," := by
  cases fields with
  | nil => rintro c ⟨⟩
  | cons field fields =>
      rintro c ⟨⟩
      decide

include h

mutual

/-- The pattern occurs in written JSON when it occurs in one of the texts. -/
theorem infix_stringify_iff : ∀ value : Value ν,
    pattern <:+: stringify format value ↔ ∃ text ∈ texts value, pattern <:+: text
  | .null => infix_word_iff h (ascii "null") (by decide)
  | .bool true => infix_word_iff h (ascii "true") (by decide)
  | .bool false => infix_word_iff h (ascii "false") (by decide)
  | .number value => by
      refine infix_outer_iff h fun c hc => ?_
      unfold stringify at hc
      split at hc
      · next hfinite =>
          have hread := format.readNumber_toText value hfinite [] (by rintro c ⟨⟩)
          exact List.mem_append_left _ (mem_readNumber hread c hc)
      · have hnull : ∀ c ∈ ascii "null", c ∈ outerUnits := forall_of_all (by decide)
        exact hnull c hc
  | .string text => by
      have hquote : pattern <:+: quote text ++ [] ↔ pattern <:+: text ∨ pattern <:+: [] :=
        infix_quote_append_iff h
      rw [List.append_nil, List.infix_nil, or_iff_left h.ne_nil] at hquote
      unfold stringify texts
      rw [hquote]
      simp only [List.mem_singleton, exists_eq_left]
  | .array [] => infix_word_iff h (ascii "[]") (by decide)
  | .array (element :: elements) => by
      unfold stringify texts textsOfElements
      rw [exists_append_iff, infix_separator_cons_iff h (by decide),
        infix_close_iff h (by decide), infix_append_iff h (head_stringifyElements format elements),
        infix_stringify_iff element, infix_stringifyElements_iff elements]
  | .object [] => infix_word_iff h (ascii "\x7b\x7d") (by decide)
  | .object ((key, value) :: fields) => by
      unfold stringify texts textsOfFields
      rw [List.exists_mem_cons_iff, exists_append_iff, infix_separator_cons_iff h (by decide),
        infix_close_iff h (by decide), infix_field_iff h (head_stringifyFields format fields),
        infix_stringify_iff value, infix_stringifyFields_iff fields]

theorem infix_stringifyElements_iff : ∀ elements : List (Value ν),
    pattern <:+: stringifyElements format elements ↔
      ∃ text ∈ textsOfElements elements, pattern <:+: text
  | [] => infix_word_iff h [] (by decide)
  | element :: elements => by
      unfold stringifyElements textsOfElements
      rw [exists_append_iff, infix_separator_cons_iff h (by decide),
        infix_append_iff h (head_stringifyElements format elements),
        infix_stringify_iff element, infix_stringifyElements_iff elements]

theorem infix_stringifyFields_iff : ∀ fields : List (Text × Value ν),
    pattern <:+: stringifyFields format fields ↔
      ∃ text ∈ textsOfFields fields, pattern <:+: text
  | [] => infix_word_iff h [] (by decide)
  | (key, value) :: fields => by
      unfold stringifyFields textsOfFields
      rw [List.exists_mem_cons_iff, exists_append_iff, infix_separator_cons_iff h (by decide),
        infix_field_iff h (head_stringifyFields format fields),
        infix_stringify_iff value, infix_stringifyFields_iff fields]

end

end Occurrences

end FancyMumble.Lib.Json
