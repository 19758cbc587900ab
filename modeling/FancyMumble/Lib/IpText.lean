import Mathlib.Algebra.Order.Ring.Nat
import Mathlib.Data.List.Basic
import Mathlib.Data.List.OfFn

/-!
# IP addresses in text

Reading IPv4 and IPv6 addresses, with `::` and an embedded IPv4 address, as the standard library
of Rust does, and that it reads back dotted octets and eight written groups.
-/

namespace FancyMumble.Lib.IpText

/-! ## Addresses -/

structure Ipv4Addr where
  a : UInt8
  b : UInt8
  c : UInt8
  d : UInt8

def Ipv4Addr.octets (ip : Ipv4Addr) : List UInt8 := [ip.a, ip.b, ip.c, ip.d]

abbrev Ipv6Addr := Fin 8 → UInt16

def beBytes (group : UInt16) : List UInt8 :=
  [(group.toNat / 256).toUInt8, (group.toNat % 256).toUInt8]

def fromBeBytes (high low : UInt8) : UInt16 := (high.toNat * 256 + low.toNat).toUInt16

theorem beBytes_fromBeBytes (high low : UInt8) : beBytes (fromBeBytes high low) = [high, low] := by
  have hhigh := high.toNat_lt
  have hlow := low.toNat_lt
  have hgroup : (fromBeBytes high low).toNat = high.toNat * 256 + low.toNat :=
    UInt16.toNat_ofNat_of_lt' (by rw [UInt16.size]; omega)
  have hdiv : (high.toNat * 256 + low.toNat) / 256 = high.toNat := by omega
  have hmod : (high.toNat * 256 + low.toNat) % 256 = low.toNat := by omega
  unfold beBytes
  rw [hgroup, hdiv, hmod]
  simp

def Ipv6Addr.octets (ip : Ipv6Addr) : List UInt8 := (List.ofFn ip).flatMap beBytes

inductive IpAddr where
  | v4 (ip : Ipv4Addr)
  | v6 (ip : Ipv6Addr)

/-! ## Reading -/

def toDigit (radix : ℕ) (c : Char) : Option ℕ :=
  let value :=
    if '0' ≤ c ∧ c ≤ '9' then some (c.toNat - '0'.toNat)
    else if 'a' ≤ c ∧ c ≤ 'z' then some (c.toNat - 'a'.toNat + 10)
    else if 'A' ≤ c ∧ c ≤ 'Z' then some (c.toNat - 'A'.toNat + 10)
    else none
  value.filter (· < radix)

def readDigits (radix : ℕ) : List Char → List ℕ × List Char
  | [] => ([], [])
  | c :: text =>
      match toDigit radix c with
      | none => ([], c :: text)
      | some digit => (digit :: (readDigits radix text).1, (readDigits radix text).2)

def valueOf (radix : ℕ) (digits : List ℕ) : ℕ :=
  digits.foldl (fun value digit => value * radix + digit) 0

def readGivenChar (c : Char) : List Char → Option (List Char)
  | [] => none
  | c' :: text => if c' = c then some text else none

def readNumber (radix maxDigits : ℕ) (allowZeroPrefix : Bool) (bound : ℕ) (text : List Char) :
    Option (ℕ × List Char) :=
  let (digits, rest) := readDigits radix text
  if digits.length > maxDigits || digits = [] then none
  else if !allowZeroPrefix && text.head? = some '0' && digits.length > 1 then none
  else if valueOf radix digits < bound then some (valueOf radix digits, rest)
  else none

def readSeparator (separator : Char) (index : ℕ) (text : List Char) : Option (List Char) :=
  if index > 0 then readGivenChar separator text else some text

def readOctet (index : ℕ) (text : List Char) : Option (UInt8 × List Char) := do
  let text ← readSeparator '.' index text
  let (octet, text) ← readNumber 10 3 false 256 text
  return (octet.toUInt8, text)

def readIpv4Addr (text : List Char) : Option (Ipv4Addr × List Char) := do
  let (a, text) ← readOctet 0 text
  let (b, text) ← readOctet 1 text
  let (c, text) ← readOctet 2 text
  let (d, text) ← readOctet 3 text
  return (⟨a, b, c, d⟩, text)

/-- At most so many groups from an index on, whether the last two of them are an embedded IPv4
address, and what follows. -/
def readGroups : ℕ → ℕ → List Char → List UInt16 × Bool × List Char
  | 0, _, text => ([], false, text)
  | left + 1, index, text =>
      match (if left > 0 then readSeparator ':' index text else none).bind readIpv4Addr with
      | some (ip, rest) => ([fromBeBytes ip.a ip.b, fromBeBytes ip.c ip.d], true, rest)
      | none =>
          match (readSeparator ':' index text).bind (readNumber 16 4 true 65536) with
          | some (group, rest) =>
              let (groups, ipv4, rest) := readGroups left (index + 1) rest
              (group.toUInt16 :: groups, ipv4, rest)
          | none => ([], false, text)

def concat (head tail : List UInt16) : Ipv6Addr := fun i =>
  if i.val < 8 - tail.length then head.getD i 0 else tail.getD (i - (8 - tail.length)) 0

def readIpv6Addr (text : List Char) : Option (Ipv6Addr × List Char) :=
  let (head, headIpv4, rest) := readGroups 8 0 text
  if head.length = 8 then some (concat head [], rest)
  else if headIpv4 then none
  else do
    let rest ← readGivenChar ':' rest
    let rest ← readGivenChar ':' rest
    let (tail, _, rest) := readGroups (8 - (head.length + 1)) 0 rest
    return (concat head tail, rest)

def readIpAddr (text : List Char) : Option (IpAddr × List Char) :=
  ((readIpv4Addr text).map (Prod.map .v4 id)).or ((readIpv6Addr text).map (Prod.map .v6 id))

def parse (text : List Char) : Option IpAddr :=
  match readIpAddr text with
  | some (ip, []) => some ip
  | _ => none

/-- An octet has no leading zero. -/
example : parse "1.2.3.04".toList = none := rfl

/-! ## Numbers -/

variable {radix : ℕ}

def Ends (radix : ℕ) (text : List Char) : Prop := ∀ c, text.head? = some c → toDigit radix c = none

theorem readDigits_of_ends {text : List Char} (h : Ends radix text) :
    readDigits radix text = ([], text) := by
  cases text with
  | nil => rfl
  | cons c text => simp [readDigits, h c rfl]

theorem readDigits_suffix (radix : ℕ) (text : List Char) :
    (readDigits radix text).2 <:+ text := by
  induction text with
  | nil => exact List.suffix_refl _
  | cons c text ih =>
      unfold readDigits
      split
      · exact List.suffix_refl _
      · exact ih.trans (List.suffix_cons c text)

theorem readDigits_append {digits : List ℕ} {written rest : List Char}
    (h : written.map (toDigit radix) = digits.map some) (hrest : Ends radix rest) :
    readDigits radix (written ++ rest) = (digits, rest) := by
  induction written generalizing digits with
  | nil =>
      have hnil : digits = [] := by simpa using h.symm
      rw [hnil]
      exact readDigits_of_ends hrest
  | cons c written ih =>
      obtain ⟨digit, digits, rfl⟩ : ∃ digit digits', digits = digit :: digits' := by
        cases digits with
        | nil => simp at h
        | cons digit digits => exact ⟨digit, digits, rfl⟩
      obtain ⟨hdigit, hdigits⟩ := List.cons_eq_cons.mp h
      simp [readDigits, hdigit, ih hdigits]

theorem readNumber_suffix {maxDigits bound n : ℕ} {allowZeroPrefix : Bool} {text rest : List Char}
    (h : readNumber radix maxDigits allowZeroPrefix bound text = some (n, rest)) :
    rest <:+ text := by
  unfold readNumber at h
  simp only [Option.ite_none_left_eq_some, Option.ite_none_right_eq_some] at h
  obtain ⟨-, -, -, hsome⟩ := h
  cases hsome
  exact readDigits_suffix radix text

theorem toDigit_digitChar {d : ℕ} (hd : d < radix) (hradix : radix ≤ 16) :
    toDigit radix d.digitChar = some d := by
  have hsixteen : ∀ d < 16, toDigit 16 (Nat.digitChar d) = some d := by decide
  have hvalue := hsixteen d (by omega)
  unfold toDigit at hvalue ⊢
  obtain ⟨hsome, -⟩ := Option.filter_eq_some_iff.mp hvalue
  exact Option.filter_eq_some_iff.mpr ⟨hsome, by simpa using hd⟩

theorem exists_digits (hone : 1 < radix) (hradix : radix ≤ 16) (n : ℕ) :
    ∃ digits, (Nat.toDigits radix n).map (toDigit radix) = digits.map some ∧
      valueOf radix digits = n := by
  induction n using Nat.strongRecOn with
  | ind n ih =>
      by_cases hn : n < radix
      · refine ⟨[n], ?_, ?_⟩
        · simp [Nat.toDigits_of_lt_base hn, toDigit_digitChar hn hradix]
        · simp [valueOf]
      · have hmod : n % radix < radix := Nat.mod_lt n (by omega)
        obtain ⟨digits, hread, hvalue⟩ := ih (n / radix) (Nat.div_lt_self (by omega) hone)
        refine ⟨digits ++ [n % radix], ?_, ?_⟩
        · rw [Nat.toDigits_of_base_le hone (by omega), List.map_append, hread]
          simp [toDigit_digitChar hmod hradix]
        · unfold valueOf at hvalue ⊢
          rw [List.foldl_append, hvalue]
          simpa [Nat.mul_comm] using Nat.div_add_mod n radix

theorem head?_toDigits (hone : 1 < radix) {n : ℕ}
    (h : (Nat.toDigits radix n).head? = some '0') : n = 0 := by
  induction n using Nat.strongRecOn with
  | ind n ih =>
      by_cases hn : n < radix
      · rw [Nat.toDigits_of_lt_base hn] at h
        simpa using h
      · rw [Nat.toDigits_of_base_le hone (by omega), List.head?_append_of_ne_nil _
          Nat.toDigits_ne_nil] at h
        have hzero := ih (n / radix) (Nat.div_lt_self (by omega) hone) h
        have hpos := Nat.div_pos (Nat.le_of_not_lt hn) (by omega)
        omega

theorem readNumber_toDigits (hone : 1 < radix) (hradix : radix ≤ 16) {maxDigits bound n : ℕ}
    (allowZeroPrefix : Bool) (hpos : 0 < maxDigits) (hlength : n < radix ^ maxDigits)
    (hn : n < bound) {rest : List Char} (hrest : Ends radix rest) :
    readNumber radix maxDigits allowZeroPrefix bound (Nat.toDigits radix n ++ rest) =
      some (n, rest) := by
  obtain ⟨digits, hread, hvalue⟩ := exists_digits hone hradix n
  have hcount : digits.length = (Nat.toDigits radix n).length := by
    simpa using (congrArg List.length hread).symm
  have hmax := (Nat.length_toDigits_le_iff hone hpos).mpr hlength
  have hsome := Nat.length_toDigits_pos (b := radix) (n := n)
  have hempty : digits ≠ [] := by
    rintro rfl
    rw [List.length_nil] at hcount
    omega
  unfold readNumber
  rw [readDigits_append hread hrest]
  dsimp only
  rw [if_neg, if_neg, if_pos]
  · rw [hvalue]
  · rw [hvalue]
    exact hn
  · simp only [Bool.and_eq_true, decide_eq_true_eq, not_and]
    rintro ⟨-, hzero⟩ hmore
    rw [List.head?_append_of_ne_nil _ Nat.toDigits_ne_nil] at hzero
    rw [head?_toDigits hone hzero, Nat.toDigits_zero] at hcount
    rw [hcount] at hmore
    exact absurd hmore (by simp)
  · simp only [Bool.or_eq_true, decide_eq_true_eq, not_or]
    exact ⟨by omega, hempty⟩

/-! ## IPv4 -/

theorem readGivenChar_of_notMem {c : Char} {text : List Char} (h : c ∉ text) :
    readGivenChar c text = none := by
  cases text with
  | nil => rfl
  | cons c' text =>
      rw [List.mem_cons, not_or] at h
      simp [readGivenChar, Ne.symm h.1]

theorem readOctet_zero (text : List Char) :
    readOctet 0 text = (readNumber 10 3 false 256 text).map (Prod.map Nat.toUInt8 id) := by
  cases hread : readNumber 10 3 false 256 text with
  | none => simp [readOctet, readSeparator, hread]
  | some read => simp [readOctet, readSeparator, hread, Prod.map]

theorem readOctet_succ (index : ℕ) (text : List Char) :
    readOctet (index + 1) ('.' :: text) =
      (readNumber 10 3 false 256 text).map (Prod.map Nat.toUInt8 id) := by
  cases hread : readNumber 10 3 false 256 text with
  | none => simp [readOctet, readSeparator, readGivenChar, hread]
  | some read => simp [readOctet, readSeparator, readGivenChar, hread, Prod.map]

theorem readIpv4Addr_of_notMem {text : List Char} (h : '.' ∉ text) :
    readIpv4Addr text = none := by
  unfold readIpv4Addr
  cases hfirst : readOctet 0 text with
  | none => rfl
  | some first =>
      rw [readOctet_zero] at hfirst
      obtain ⟨⟨octet, rest⟩, hread, rfl⟩ := Option.map_eq_some_iff.mp hfirst
      have hdot : '.' ∉ rest := fun hmem => h ((readNumber_suffix hread).mem hmem)
      have hsecond : readOctet 1 rest = none := by
        simp [readOctet, readSeparator, readGivenChar_of_notMem hdot]
      simp [hsecond]

theorem ends_cons {c : Char} (h : toDigit radix c = none) (text : List Char) :
    Ends radix (c :: text) := by
  rintro _ ⟨⟩
  exact h

theorem ends_nil : Ends radix [] := nofun

def writeOctet (octet : UInt8) : List Char := Nat.toDigits 10 octet.toNat

def writeIpv4Addr (ip : Ipv4Addr) : List Char :=
  writeOctet ip.a ++ '.' :: (writeOctet ip.b ++ '.' :: (writeOctet ip.c ++ '.' ::
    writeOctet ip.d))

theorem readNumber_writeOctet (octet : UInt8) {rest : List Char} (hrest : Ends 10 rest) :
    (readNumber 10 3 false 256 (writeOctet octet ++ rest)).map (Prod.map Nat.toUInt8 id) =
      some (octet, rest) := by
  unfold writeOctet
  rw [readNumber_toDigits (by decide) (by decide) false (by decide)
    (octet.toNat_lt.trans (by decide)) octet.toNat_lt hrest]
  simp

theorem readIpv4Addr_writeIpv4Addr (ip : Ipv4Addr) :
    readIpv4Addr (writeIpv4Addr ip) = some (ip, []) := by
  have hdot : ∀ text, Ends 10 ('.' :: text) := ends_cons (by decide)
  have hlast : Option.map (Prod.map Nat.toUInt8 id)
      (readNumber 10 3 false 256 (writeOctet ip.d)) = some (ip.d, []) := by
    simpa using readNumber_writeOctet ip.d ends_nil
  simp [readIpv4Addr, writeIpv4Addr, readOctet_zero, readOctet_succ,
    readNumber_writeOctet _ (hdot _), hlast]

theorem parse_writeIpv4Addr (ip : Ipv4Addr) : parse (writeIpv4Addr ip) = some (.v4 ip) := by
  simp [parse, readIpAddr, readIpv4Addr_writeIpv4Addr]

/-! ## IPv6 -/

def writeGroup (group : UInt16) : List Char := Nat.toDigits 16 group.toNat

def writeGroups (groups : List UInt16) : List Char :=
  [':'].intercalate (groups.map writeGroup)

def writeLater (groups : List UInt16) : List Char :=
  groups.flatMap fun group => ':' :: writeGroup group

theorem writeGroups_cons (group : UInt16) (groups : List UInt16) :
    writeGroups (group :: groups) = writeGroup group ++ writeLater groups := by
  induction groups generalizing group with
  | nil => simp [writeGroups, writeLater]
  | cons group' groups ih =>
      have hnext := ih group'
      unfold writeGroups at hnext ⊢
      rw [List.map_cons, List.map_cons, List.intercalate_cons_cons]
      rw [List.map_cons] at hnext
      rw [hnext]
      simp [writeLater]

theorem dot_notMem_writeGroup (group : UInt16) : '.' ∉ writeGroup group := by
  intro hmem
  have hone : 1 < 16 := by decide
  obtain ⟨digits, hread, -⟩ := exists_digits hone le_rfl group.toNat
  have hdigit := List.mem_map_of_mem (f := toDigit 16) hmem
  unfold writeGroup at hdigit
  rw [hread] at hdigit
  obtain ⟨digit, -, hsome⟩ := List.mem_map.mp hdigit
  have hnone : toDigit 16 '.' = none := by decide
  exact Option.some_ne_none digit (hsome.trans hnone)

theorem dot_notMem_writeLater (groups : List UInt16) : '.' ∉ writeLater groups := by
  intro hmem
  obtain ⟨group, -, hthere⟩ := List.mem_flatMap.mp hmem
  rcases List.mem_cons.mp hthere with hcolon | hdigit
  · exact absurd hcolon (by decide)
  · exact dot_notMem_writeGroup group hdigit

theorem ends_writeLater (groups : List UInt16) : Ends 16 (writeLater groups) := by
  cases groups with
  | nil => exact ends_nil
  | cons group groups => exact ends_cons (by decide) _

theorem readNumber_writeGroup (group : UInt16) (groups : List UInt16) :
    readNumber 16 4 true 65536 (writeGroup group ++ writeLater groups) =
      some (group.toNat, writeLater groups) := by
  have hlength : group.toNat < 16 ^ 4 := group.toNat_lt
  exact readNumber_toDigits (by decide) (by decide) true (by decide) hlength group.toNat_lt
    (ends_writeLater groups)

theorem readIpv4Addr_writeGroup (group : UInt16) (groups : List UInt16) :
    readIpv4Addr (writeGroup group ++ writeLater groups) = none := by
  refine readIpv4Addr_of_notMem fun hmem => ?_
  rcases List.mem_append.mp hmem with hgroup | hlater
  · exact dot_notMem_writeGroup group hgroup
  · exact dot_notMem_writeLater groups hlater

theorem readGroups_cons {index : ℕ} {text : List Char} {group : UInt16} {groups : List UInt16}
    (h : readSeparator ':' index text = some (writeGroup group ++ writeLater groups)) :
    readGroups (groups.length + 1) index text =
      (group :: (readGroups groups.length (index + 1) (writeLater groups)).1,
        (readGroups groups.length (index + 1) (writeLater groups)).2) := by
  have hnone : (if groups.length > 0 then some (writeGroup group ++ writeLater groups)
      else none).bind readIpv4Addr = none := by
    split
    · exact readIpv4Addr_writeGroup group groups
    · rfl
  rw [readGroups, h, hnone, Option.bind_some, readNumber_writeGroup]
  simp

theorem readGroups_writeLater (groups : List UInt16) (index : ℕ) :
    readGroups groups.length (index + 1) (writeLater groups) = (groups, false, []) := by
  induction groups generalizing index with
  | nil => rfl
  | cons group groups ih =>
      have hseparator : readSeparator ':' (index + 1) (writeLater (group :: groups)) =
          some (writeGroup group ++ writeLater groups) := by
        simp [readSeparator, readGivenChar, writeLater]
      rw [List.length_cons, readGroups_cons hseparator, ih]

theorem readGroups_writeGroups (group : UInt16) (groups : List UInt16) :
    readGroups (groups.length + 1) 0 (writeGroups (group :: groups)) =
      (group :: groups, false, []) := by
  have hseparator : readSeparator ':' 0 (writeGroups (group :: groups)) =
      some (writeGroup group ++ writeLater groups) := by
    rw [writeGroups_cons]
    rfl
  rw [readGroups_cons hseparator, readGroups_writeLater]

theorem concat_ofFn (ip : Ipv6Addr) : concat (List.ofFn ip) [] = ip := by
  funext i
  have hi : i.val < (List.ofFn ip).length := by
    rw [List.length_ofFn]
    exact i.isLt
  unfold concat
  rw [List.length_nil, if_pos i.isLt, List.getD_eq_getElem?_getD,
    List.getElem?_eq_getElem hi, Option.getD_some, List.getElem_ofFn]

theorem parse_writeGroups (ip : Ipv6Addr) : parse (writeGroups (List.ofFn ip)) = some (.v6 ip) := by
  have hofFn := concat_ofFn ip
  have hlength : (List.ofFn ip).length = 8 := List.length_ofFn
  generalize List.ofFn ip = groups at hofFn hlength
  cases groups with
  | nil => cases hlength
  | cons group groups =>
      have hseven : groups.length = 7 := by simpa using hlength
      have hgroups := readGroups_writeGroups group groups
      rw [hseven] at hgroups
      have hv4 : readIpv4Addr (writeGroups (group :: groups)) = none := by
        rw [writeGroups_cons]
        exact readIpv4Addr_writeGroup group groups
      have hv6 : readIpv6Addr (writeGroups (group :: groups)) = some (ip, []) := by
        unfold readIpv6Addr
        rw [hgroups]
        simp [hseven, hofFn]
      unfold parse readIpAddr
      rw [hv4, hv6]
      rfl

theorem readGroups_of_notMem {text : List Char} (h : ':' ∉ text) (left index : ℕ) :
    readGroups left (index + 1) text = ([], false, text) := by
  cases left with
  | zero => rfl
  | succ left => simp [readGroups, readSeparator, readGivenChar_of_notMem h]

theorem parse_of_notMem {text : List Char} (hdot : '.' ∉ text) (hcolon : ':' ∉ text) :
    parse text = none := by
  have hv4 := readIpv4Addr_of_notMem hdot
  have hv6 : readIpv6Addr text = none := by
    unfold readIpv6Addr
    rw [readGroups]
    cases hnumber : readNumber 16 4 true 65536 text with
    | none => simp [readSeparator, hv4, hnumber, readGivenChar_of_notMem hcolon]
    | some read =>
        obtain ⟨group, rest⟩ := read
        have hrest : ':' ∉ rest := fun hmem => hcolon ((readNumber_suffix hnumber).mem hmem)
        simp [readSeparator, hv4, hnumber, readGroups_of_notMem hrest,
          readGivenChar_of_notMem hrest]
  unfold parse readIpAddr
  rw [hv4, hv6]
  rfl

end FancyMumble.Lib.IpText
