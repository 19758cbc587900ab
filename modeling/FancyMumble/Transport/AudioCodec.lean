import FancyMumble.Error
import FancyMumble.Lib.Bytes
import FancyMumble.Lib.Outcome

/-!
# Audio packets

The binary audio format of Mumble before 1.5 with its variable-length integers, and the
protobuf format that followed it. The sender's session is in a packet only on its way from
the server to a client.
-/

namespace FancyMumble.Transport

open Lib Lib.Outcome

/-! ## Audio types -/

inductive AudioType where
  | protobuf
  | opus
deriving DecidableEq

namespace AudioType

def toU8 : AudioType → UInt8
  | .protobuf => 0
  | .opus => 4

def tryFrom (value : UInt8) : Except Error AudioType :=
  if value = 0 then .ok .protobuf
  else if value = 4 then .ok .opus
  else .error (.invalidState s!"unsupported audio type {value}")

end AudioType

/-! ## Varints -/

namespace MumbleVarint

def upperHex (b : UInt8) : String :=
  let digit (n : Nat) : Char := (Nat.digitChar n).toUpper
  String.ofList [digit (b.toNat / 16), digit (b.toNat % 16)]

def read (buf : List UInt8) : Outcome Error (UInt64 × Nat) :=
  if buf.isEmpty then .err (.invalidState "varint: empty input")
  else do
    let first ← index buf 0
    if first &&& 0x80 = 0 then pure (first.toUInt64, 1)
    else if first &&& 0xC0 = 0x80 then
      if buf.length < 2 then .err (.invalidState "varint: truncated 2-byte")
      else do
        let b1 ← index buf 1
        pure ((first.toUInt64 &&& 0x3F) <<< 8 ||| b1.toUInt64, 2)
    else if first &&& 0xE0 = 0xC0 then
      if buf.length < 3 then .err (.invalidState "varint: truncated 3-byte")
      else do
        let b1 ← index buf 1
        let b2 ← index buf 2
        pure ((first.toUInt64 &&& 0x1F) <<< 16 ||| b1.toUInt64 <<< 8 ||| b2.toUInt64, 3)
    else if first &&& 0xF0 = 0xE0 then
      if buf.length < 4 then .err (.invalidState "varint: truncated 4-byte")
      else do
        let b1 ← index buf 1
        let b2 ← index buf 2
        let b3 ← index buf 3
        pure ((first.toUInt64 &&& 0x0F) <<< 24 ||| b1.toUInt64 <<< 16 ||| b2.toUInt64 <<< 8 |||
          b3.toUInt64, 4)
    else if first = 0xF0 then
      if buf.length < 5 then .err (.invalidState "varint: truncated 32-bit")
      else do
        let b1 ← index buf 1
        let b2 ← index buf 2
        let b3 ← index buf 3
        let b4 ← index buf 4
        pure (b1.toUInt64 <<< 24 ||| b2.toUInt64 <<< 16 ||| b3.toUInt64 <<< 8 |||
          b4.toUInt64, 5)
    else if first = 0xF4 then
      if buf.length < 9 then .err (.invalidState "varint: truncated 64-bit")
      else do
        let b1 ← index buf 1
        let b2 ← index buf 2
        let b3 ← index buf 3
        let b4 ← index buf 4
        let b5 ← index buf 5
        let b6 ← index buf 6
        let b7 ← index buf 7
        let b8 ← index buf 8
        pure (b1.toUInt64 <<< 56 ||| b2.toUInt64 <<< 48 ||| b3.toUInt64 <<< 40 |||
          b4.toUInt64 <<< 32 ||| b5.toUInt64 <<< 24 ||| b6.toUInt64 <<< 16 |||
          b7.toUInt64 <<< 8 ||| b8.toUInt64, 9)
    else .err (.invalidState s!"varint: unsupported prefix byte 0x{upperHex first}")

def write (val : UInt64) : List UInt8 :=
  if val < 0x80 then [val.toUInt8]
  else if val < 0x4000 then [(0x80 : UInt8) ||| ((val >>> 8).toUInt8 &&& 0x3F), val.toUInt8]
  else if val < 0x200000 then
    [(0xC0 : UInt8) ||| ((val >>> 16).toUInt8 &&& 0x1F), (val >>> 8).toUInt8, val.toUInt8]
  else if val < 0x10000000 then
    [(0xE0 : UInt8) ||| ((val >>> 24).toUInt8 &&& 0x0F), (val >>> 16).toUInt8,
      (val >>> 8).toUInt8, val.toUInt8]
  else if val ≤ 0xFFFFFFFF then
    [0xF0, (val >>> 24).toUInt8, (val >>> 16).toUInt8, (val >>> 8).toUInt8, val.toUInt8]
  else 0xF4 :: (List.range 8).reverse.map fun shift => (val >>> UInt64.ofNat (shift * 8)).toUInt8

/-! ### Bytes and values -/

theorem toNat_or_byte {x : UInt64} {b : UInt8} {k : Nat} (hk : k + 8 ≤ 64)
    (hx : x.toNat % 2 ^ (k + 8) = 0) :
    (x ||| b.toUInt64 <<< UInt64.ofNat k).toNat = x.toNat + b.toNat * 2 ^ k := by
  have hb : b.toNat * 2 ^ k < 2 ^ (k + 8) := by
    rw [Nat.pow_add, Nat.mul_comm]
    exact Nat.mul_lt_mul_of_pos_left b.toNat_lt (Nat.two_pow_pos k)
  have hfits : b.toNat * 2 ^ k < 2 ^ 64 := hb.trans_le (Nat.pow_le_pow_right (by decide) hk)
  have hshift : (UInt64.ofNat k).toNat % 64 = k := by
    rw [UInt64.toNat_ofNat']
    omega
  rw [UInt64.toNat_or, UInt64.toNat_shiftLeft, hshift, UInt8.toNat_toUInt64, Nat.shiftLeft_eq,
    Nat.mod_eq_of_lt hfits]
  obtain ⟨q, hq⟩ := Nat.dvd_of_mod_eq_zero hx
  rw [hq, Nat.two_pow_add_eq_or_of_lt hb]

theorem toNat_or_last {x : UInt64} {b : UInt8} (hx : x.toNat % 256 = 0) :
    (x ||| b.toUInt64).toNat = x.toNat + b.toNat := by
  have h := toNat_or_byte (x := x) (b := b) (k := 0) (by decide) hx
  have hzero : b.toUInt64 <<< UInt64.ofNat 0 = b.toUInt64 := UInt64.shiftLeft_zero
  rwa [hzero, Nat.pow_zero, Nat.mul_one] at h

theorem toNat_shiftLeft_byte {b : UInt8} {k : Nat} (hk : k + 8 ≤ 64) :
    (b.toUInt64 <<< UInt64.ofNat k).toNat = b.toNat * 2 ^ k := by
  have h := toNat_or_byte (x := 0) (b := b) hk (Nat.zero_mod _)
  rwa [UInt64.zero_or, UInt64.toNat_zero, Nat.zero_add] at h

theorem toNat_byteOf (v : UInt64) {k : Nat} (hk : k < 64) :
    ((v >>> UInt64.ofNat k).toUInt8).toNat = v.toNat / 2 ^ k % 256 := by
  have hshift : (UInt64.ofNat k).toNat % 64 = k := by
    rw [UInt64.toNat_ofNat']
    omega
  rw [UInt64.toNat_toUInt8, UInt64.toNat_shiftRight, hshift, Nat.shiftRight_eq_div_pow]

theorem prefix_two (x : UInt8) :
    (0x80 ||| (x &&& 0x3F)) &&& 0x80 ≠ 0 ∧ (0x80 ||| (x &&& 0x3F)) &&& 0xC0 = 0x80 ∧
      ((0x80 ||| (x &&& 0x3F)).toUInt64 &&& 0x3F) = (x &&& 0x3F).toUInt64 := by
  have h : ∀ i : Fin 256,
      (0x80 ||| (UInt8.ofFin i &&& 0x3F)) &&& 0x80 ≠ 0 ∧
        (0x80 ||| (UInt8.ofFin i &&& 0x3F)) &&& 0xC0 = 0x80 ∧
        ((0x80 ||| (UInt8.ofFin i &&& 0x3F)).toUInt64 &&& 0x3F) =
          (UInt8.ofFin i &&& 0x3F).toUInt64 := by
    decide +kernel
  exact h x.toFin

theorem prefix_three (x : UInt8) :
    (0xC0 ||| (x &&& 0x1F)) &&& 0x80 ≠ 0 ∧ (0xC0 ||| (x &&& 0x1F)) &&& 0xC0 ≠ 0x80 ∧
      (0xC0 ||| (x &&& 0x1F)) &&& 0xE0 = 0xC0 ∧
      ((0xC0 ||| (x &&& 0x1F)).toUInt64 &&& 0x1F) = (x &&& 0x1F).toUInt64 := by
  have h : ∀ i : Fin 256,
      (0xC0 ||| (UInt8.ofFin i &&& 0x1F)) &&& 0x80 ≠ 0 ∧
        (0xC0 ||| (UInt8.ofFin i &&& 0x1F)) &&& 0xC0 ≠ 0x80 ∧
        (0xC0 ||| (UInt8.ofFin i &&& 0x1F)) &&& 0xE0 = 0xC0 ∧
        ((0xC0 ||| (UInt8.ofFin i &&& 0x1F)).toUInt64 &&& 0x1F) =
          (UInt8.ofFin i &&& 0x1F).toUInt64 := by
    decide +kernel
  exact h x.toFin

theorem prefix_four (x : UInt8) :
    (0xE0 ||| (x &&& 0x0F)) &&& 0x80 ≠ 0 ∧ (0xE0 ||| (x &&& 0x0F)) &&& 0xC0 ≠ 0x80 ∧
      (0xE0 ||| (x &&& 0x0F)) &&& 0xE0 ≠ 0xC0 ∧ (0xE0 ||| (x &&& 0x0F)) &&& 0xF0 = 0xE0 ∧
      ((0xE0 ||| (x &&& 0x0F)).toUInt64 &&& 0x0F) = (x &&& 0x0F).toUInt64 := by
  have h : ∀ i : Fin 256,
      (0xE0 ||| (UInt8.ofFin i &&& 0x0F)) &&& 0x80 ≠ 0 ∧
        (0xE0 ||| (UInt8.ofFin i &&& 0x0F)) &&& 0xC0 ≠ 0x80 ∧
        (0xE0 ||| (UInt8.ofFin i &&& 0x0F)) &&& 0xE0 ≠ 0xC0 ∧
        (0xE0 ||| (UInt8.ofFin i &&& 0x0F)) &&& 0xF0 = 0xE0 ∧
        ((0xE0 ||| (UInt8.ofFin i &&& 0x0F)).toUInt64 &&& 0x0F) =
          (UInt8.ofFin i &&& 0x0F).toUInt64 := by
    decide +kernel
  exact h x.toFin

theorem seven_bits (x : UInt8) : x &&& 0x80 = 0 ↔ x < 0x80 := by
  have h : ∀ i : Fin 256, UInt8.ofFin i &&& 0x80 = 0 ↔ UInt8.ofFin i < 0x80 := by
    decide +kernel
  exact h x.toFin

/-! ### Reading each form -/

theorem read_one {x : UInt8} (h : x < 0x80) (rest : List UInt8) :
    read (x :: rest) = .ok (x.toUInt64, 1) := by
  have hhead : x &&& 0x80 = 0 := (seven_bits x).mpr h
  simp [read, hhead]

theorem read_two (x b1 : UInt8) (rest : List UInt8) :
    read (((0x80 : UInt8) ||| (x &&& 0x3F)) :: b1 :: rest) =
      .ok ((x &&& 0x3F).toUInt64 <<< 8 ||| b1.toUInt64, 2) := by
  obtain ⟨hone, htwo, hpayload⟩ := prefix_two x
  have hlength : ¬rest.length + 1 + 1 < 2 := by omega
  simp only [read, List.isEmpty_cons, index_cons_zero, ok_bind, hone, htwo, hpayload, if_false,
    if_true, Bool.false_eq_true, List.length_cons, hlength, index_cons_succ, pure_eq]

theorem read_three (x b1 b2 : UInt8) (rest : List UInt8) :
    read (((0xC0 : UInt8) ||| (x &&& 0x1F)) :: b1 :: b2 :: rest) =
      .ok ((x &&& 0x1F).toUInt64 <<< 16 ||| b1.toUInt64 <<< 8 ||| b2.toUInt64, 3) := by
  obtain ⟨hone, htwo, hthree, hpayload⟩ := prefix_three x
  have hlength : ¬rest.length + 1 + 1 + 1 < 3 := by omega
  simp only [read, List.isEmpty_cons, index_cons_zero, ok_bind, hone, htwo, hthree, hpayload,
    if_false, if_true, Bool.false_eq_true, List.length_cons, hlength, index_cons_succ, pure_eq]

theorem read_four (x b1 b2 b3 : UInt8) (rest : List UInt8) :
    read (((0xE0 : UInt8) ||| (x &&& 0x0F)) :: b1 :: b2 :: b3 :: rest) =
      .ok ((x &&& 0x0F).toUInt64 <<< 24 ||| b1.toUInt64 <<< 16 ||| b2.toUInt64 <<< 8 |||
        b3.toUInt64, 4) := by
  obtain ⟨hone, htwo, hthree, hfour, hpayload⟩ := prefix_four x
  have hlength : ¬rest.length + 1 + 1 + 1 + 1 < 4 := by omega
  simp only [read, List.isEmpty_cons, index_cons_zero, ok_bind, hone, htwo, hthree, hfour,
    hpayload, if_false, if_true, Bool.false_eq_true, List.length_cons, hlength,
    index_cons_succ, pure_eq]

theorem read_five (b1 b2 b3 b4 : UInt8) (rest : List UInt8) :
    read (0xF0 :: b1 :: b2 :: b3 :: b4 :: rest) =
      .ok (b1.toUInt64 <<< 24 ||| b2.toUInt64 <<< 16 ||| b3.toUInt64 <<< 8 ||| b4.toUInt64, 5) := by
  have hlength : ¬rest.length + 1 + 1 + 1 + 1 + 1 < 5 := by omega
  have hone : ¬(0xF0 : UInt8) &&& 0x80 = 0 := by decide
  have htwo : ¬(0xF0 : UInt8) &&& 0xC0 = 0x80 := by decide
  have hthree : ¬(0xF0 : UInt8) &&& 0xE0 = 0xC0 := by decide
  have hfour : ¬(0xF0 : UInt8) &&& 0xF0 = 0xE0 := by decide
  simp only [read, List.isEmpty_cons, index_cons_zero, ok_bind, hone, htwo, hthree, hfour,
    if_false, if_true, Bool.false_eq_true, List.length_cons, hlength, index_cons_succ, pure_eq]

theorem read_nine (b1 b2 b3 b4 b5 b6 b7 b8 : UInt8) (rest : List UInt8) :
    read (0xF4 :: b1 :: b2 :: b3 :: b4 :: b5 :: b6 :: b7 :: b8 :: rest) =
      .ok (b1.toUInt64 <<< 56 ||| b2.toUInt64 <<< 48 ||| b3.toUInt64 <<< 40 |||
        b4.toUInt64 <<< 32 ||| b5.toUInt64 <<< 24 ||| b6.toUInt64 <<< 16 |||
        b7.toUInt64 <<< 8 ||| b8.toUInt64, 9) := by
  have hlength : ¬rest.length + 1 + 1 + 1 + 1 + 1 + 1 + 1 + 1 + 1 < 9 := by omega
  have hone : ¬(0xF4 : UInt8) &&& 0x80 = 0 := by decide
  have htwo : ¬(0xF4 : UInt8) &&& 0xC0 = 0x80 := by decide
  have hthree : ¬(0xF4 : UInt8) &&& 0xE0 = 0xC0 := by decide
  have hfour : ¬(0xF4 : UInt8) &&& 0xF0 = 0xE0 := by decide
  have hfive : ¬(0xF4 : UInt8) = 0xF0 := by decide
  simp only [read, List.isEmpty_cons, index_cons_zero, ok_bind, hone, htwo, hthree, hfour,
    hfive, if_false, if_true, Bool.false_eq_true, List.length_cons, hlength, index_cons_succ,
    pure_eq]

/-! ### The value of each form -/

theorem value_two (b1 b0 : UInt8) :
    (b1.toUInt64 <<< 8 ||| b0.toUInt64).toNat = b1.toNat * 2 ^ 8 + b0.toNat := by
  have h1 : (b1.toUInt64 <<< 8).toNat = b1.toNat * 2 ^ 8 :=
    toNat_shiftLeft_byte (k := 8) (by decide)
  rw [toNat_or_last (by omega), h1]

theorem value_three (b2 b1 b0 : UInt8) :
    (b2.toUInt64 <<< 16 ||| b1.toUInt64 <<< 8 ||| b0.toUInt64).toNat =
      b2.toNat * 2 ^ 16 + b1.toNat * 2 ^ 8 + b0.toNat := by
  have h2 : (b2.toUInt64 <<< 16).toNat = b2.toNat * 2 ^ 16 :=
    toNat_shiftLeft_byte (k := 16) (by decide)
  have h1 : (b2.toUInt64 <<< 16 ||| b1.toUInt64 <<< 8).toNat =
      (b2.toUInt64 <<< 16).toNat + b1.toNat * 2 ^ 8 :=
    toNat_or_byte (k := 8) (by decide) (by omega)
  rw [toNat_or_last (by omega), h1, h2]

theorem value_four (b3 b2 b1 b0 : UInt8) :
    (b3.toUInt64 <<< 24 ||| b2.toUInt64 <<< 16 ||| b1.toUInt64 <<< 8 ||| b0.toUInt64).toNat =
      b3.toNat * 2 ^ 24 + b2.toNat * 2 ^ 16 + b1.toNat * 2 ^ 8 + b0.toNat := by
  have h3 : (b3.toUInt64 <<< 24).toNat = b3.toNat * 2 ^ 24 :=
    toNat_shiftLeft_byte (k := 24) (by decide)
  have h2 : (b3.toUInt64 <<< 24 ||| b2.toUInt64 <<< 16).toNat =
      (b3.toUInt64 <<< 24).toNat + b2.toNat * 2 ^ 16 :=
    toNat_or_byte (k := 16) (by decide) (by omega)
  have h1 : (b3.toUInt64 <<< 24 ||| b2.toUInt64 <<< 16 ||| b1.toUInt64 <<< 8).toNat =
      (b3.toUInt64 <<< 24 ||| b2.toUInt64 <<< 16).toNat + b1.toNat * 2 ^ 8 :=
    toNat_or_byte (k := 8) (by decide) (by omega)
  rw [toNat_or_last (by omega), h1, h2, h3]

theorem value_eight (b7 b6 b5 b4 b3 b2 b1 b0 : UInt8) :
    (b7.toUInt64 <<< 56 ||| b6.toUInt64 <<< 48 ||| b5.toUInt64 <<< 40 ||| b4.toUInt64 <<< 32 |||
        b3.toUInt64 <<< 24 ||| b2.toUInt64 <<< 16 ||| b1.toUInt64 <<< 8 ||| b0.toUInt64).toNat =
      b7.toNat * 2 ^ 56 + b6.toNat * 2 ^ 48 + b5.toNat * 2 ^ 40 + b4.toNat * 2 ^ 32 +
        b3.toNat * 2 ^ 24 + b2.toNat * 2 ^ 16 + b1.toNat * 2 ^ 8 + b0.toNat := by
  have step {x : UInt64} {b : UInt8} {k : Nat} {s : UInt64} (hs : s = UInt64.ofNat k)
      (hk : k + 8 ≤ 64) (hx : x.toNat % 2 ^ (k + 8) = 0) :
      (x ||| b.toUInt64 <<< s).toNat = x.toNat + b.toNat * 2 ^ k := by
    rw [hs]
    exact toNat_or_byte hk hx
  have h7 : (b7.toUInt64 <<< 56).toNat = b7.toNat * 2 ^ 56 :=
    toNat_shiftLeft_byte (k := 56) (by decide)
  have h6 := step (x := b7.toUInt64 <<< 56) (b := b6) (k := 48) (s := 48) rfl (by decide)
    (by rw [h7]; omega)
  have h5 := step (x := _ ||| b6.toUInt64 <<< 48) (b := b5) (k := 40) (s := 40) rfl (by decide)
    (by rw [h6, h7]; omega)
  have h4 := step (x := _ ||| b5.toUInt64 <<< 40) (b := b4) (k := 32) (s := 32) rfl (by decide)
    (by rw [h5, h6, h7]; omega)
  have h3 := step (x := _ ||| b4.toUInt64 <<< 32) (b := b3) (k := 24) (s := 24) rfl (by decide)
    (by rw [h4, h5, h6, h7]; omega)
  have h2 := step (x := _ ||| b3.toUInt64 <<< 24) (b := b2) (k := 16) (s := 16) rfl (by decide)
    (by rw [h3, h4, h5, h6, h7]; omega)
  have h1 := step (x := _ ||| b2.toUInt64 <<< 16) (b := b1) (k := 8) (s := 8) rfl (by decide)
    (by rw [h2, h3, h4, h5, h6, h7]; omega)
  rw [toNat_or_last (by rw [h1, h2, h3, h4, h5, h6, h7]; omega), h1, h2, h3, h4, h5, h6, h7]

/-! ### Reading what was written -/

theorem toNat_and_low (x mask : UInt8) {k : Nat} (hmask : mask.toNat = 2 ^ k - 1) :
    (x &&& mask).toNat = x.toNat % 2 ^ k := by
  rw [UInt8.toNat_and, hmask, Nat.and_two_pow_sub_one_eq_mod]

theorem write_eq_nine (v : UInt64) (h : ¬v ≤ 0xFFFFFFFF) :
    write v = [(0xF4 : UInt8), (v >>> 56).toUInt8, (v >>> 48).toUInt8, (v >>> 40).toUInt8,
      (v >>> 32).toUInt8, (v >>> 24).toUInt8, (v >>> 16).toUInt8, (v >>> 8).toUInt8,
      (v >>> 0).toUInt8] := by
  have hnat : 0xFFFFFFFF < v.toNat := by
    rw [UInt64.le_iff_toNat_le] at h
    exact Nat.lt_of_not_le h
  have hnot {n : UInt64} (hn : n.toNat ≤ 0xFFFFFFFF) : ¬v < n := by
    rw [UInt64.lt_iff_toNat_lt]
    omega
  rw [write, if_neg (hnot (by decide)), if_neg (hnot (by decide)), if_neg (hnot (by decide)),
    if_neg (hnot (by decide)), if_neg h]
  rfl

/-- Reading what was written gives the value back, and leaves what follows. -/
theorem read_write_append (v : UInt64) (rest : List UInt8) :
    read (write v ++ rest) = .ok (v, (write v).length) := by
  have byte (k : Nat) (hk : k < 64) := toNat_byteOf v hk
  have hlow : v.toUInt8.toNat = v.toNat % 256 := UInt64.toNat_toUInt8 v
  have h8 : (v >>> 8).toUInt8.toNat = v.toNat / 2 ^ 8 % 256 := byte 8 (by decide)
  have h16 : (v >>> 16).toUInt8.toNat = v.toNat / 2 ^ 16 % 256 := byte 16 (by decide)
  have h24 : (v >>> 24).toUInt8.toNat = v.toNat / 2 ^ 24 % 256 := byte 24 (by decide)
  by_cases hone : v < 0x80
  · have hnat : v.toNat < 0x80 := UInt64.lt_iff_toNat_lt.mp hone
    have hbyte : v.toUInt8 < 0x80 := by
      rw [UInt8.lt_iff_toNat_lt, hlow]
      exact (Nat.mod_le _ _).trans_lt hnat
    have hvalue : v.toUInt8.toUInt64 = v := by
      apply UInt64.toNat_inj.mp
      rw [UInt8.toNat_toUInt64, hlow]
      omega
    rw [write, if_pos hone, List.singleton_append, read_one hbyte, hvalue]
    rfl
  by_cases htwo : v < 0x4000
  · have hnat : v.toNat < 0x4000 := UInt64.lt_iff_toNat_lt.mp htwo
    have hpayload := toNat_and_low (v >>> 8).toUInt8 0x3F (k := 6) rfl
    have hvalue : ((v >>> 8).toUInt8 &&& 0x3F).toUInt64 <<< 8 ||| v.toUInt8.toUInt64 = v := by
      apply UInt64.toNat_inj.mp
      rw [value_two, hpayload, h8, hlow]
      omega
    rw [write, if_neg hone, if_pos htwo, List.cons_append, List.singleton_append, read_two,
      hvalue]
    rfl
  by_cases hthree : v < 0x200000
  · have hnat : v.toNat < 0x200000 := UInt64.lt_iff_toNat_lt.mp hthree
    have hpayload := toNat_and_low (v >>> 16).toUInt8 0x1F (k := 5) rfl
    have hvalue : ((v >>> 16).toUInt8 &&& 0x1F).toUInt64 <<< 16 |||
        (v >>> 8).toUInt8.toUInt64 <<< 8 ||| v.toUInt8.toUInt64 = v := by
      apply UInt64.toNat_inj.mp
      rw [value_three, hpayload, h16, h8, hlow]
      omega
    rw [write, if_neg hone, if_neg htwo, if_pos hthree, List.cons_append, List.cons_append,
      List.singleton_append, read_three, hvalue]
    rfl
  by_cases hfour : v < 0x10000000
  · have hnat : v.toNat < 0x10000000 := UInt64.lt_iff_toNat_lt.mp hfour
    have hpayload := toNat_and_low (v >>> 24).toUInt8 0x0F (k := 4) rfl
    have hvalue : ((v >>> 24).toUInt8 &&& 0x0F).toUInt64 <<< 24 |||
        (v >>> 16).toUInt8.toUInt64 <<< 16 ||| (v >>> 8).toUInt8.toUInt64 <<< 8 |||
        v.toUInt8.toUInt64 = v := by
      apply UInt64.toNat_inj.mp
      rw [value_four, hpayload, h24, h16, h8, hlow]
      omega
    rw [write, if_neg hone, if_neg htwo, if_neg hthree, if_pos hfour, List.cons_append,
      List.cons_append, List.cons_append, List.singleton_append, read_four, hvalue]
    rfl
  by_cases hfive : v ≤ 0xFFFFFFFF
  · have hnat : v.toNat ≤ 0xFFFFFFFF := UInt64.le_iff_toNat_le.mp hfive
    have hvalue : (v >>> 24).toUInt8.toUInt64 <<< 24 ||| (v >>> 16).toUInt8.toUInt64 <<< 16 |||
        (v >>> 8).toUInt8.toUInt64 <<< 8 ||| v.toUInt8.toUInt64 = v := by
      apply UInt64.toNat_inj.mp
      rw [value_four, h24, h16, h8, hlow]
      omega
    rw [write, if_neg hone, if_neg htwo, if_neg hthree, if_neg hfour, if_pos hfive,
      List.cons_append, List.cons_append, List.cons_append, List.cons_append,
      List.singleton_append, read_five, hvalue]
    rfl
  · have hnat : v.toNat < 2 ^ 64 := v.toNat_lt
    have hlow' : (v >>> 0).toUInt8.toNat = v.toNat / 2 ^ 0 % 256 := byte 0 (by decide)
    have h32 : (v >>> 32).toUInt8.toNat = v.toNat / 2 ^ 32 % 256 := byte 32 (by decide)
    have h40 : (v >>> 40).toUInt8.toNat = v.toNat / 2 ^ 40 % 256 := byte 40 (by decide)
    have h48 : (v >>> 48).toUInt8.toNat = v.toNat / 2 ^ 48 % 256 := byte 48 (by decide)
    have h56 : (v >>> 56).toUInt8.toNat = v.toNat / 2 ^ 56 % 256 := byte 56 (by decide)
    have hvalue : (v >>> 56).toUInt8.toUInt64 <<< 56 ||| (v >>> 48).toUInt8.toUInt64 <<< 48 |||
        (v >>> 40).toUInt8.toUInt64 <<< 40 ||| (v >>> 32).toUInt8.toUInt64 <<< 32 |||
        (v >>> 24).toUInt8.toUInt64 <<< 24 ||| (v >>> 16).toUInt8.toUInt64 <<< 16 |||
        (v >>> 8).toUInt8.toUInt64 <<< 8 ||| (v >>> 0).toUInt8.toUInt64 = v := by
      apply UInt64.toNat_inj.mp
      rw [value_eight, h56, h48, h40, h32, h24, h16, h8, hlow']
      omega
    rw [write_eq_nine v hfive, List.cons_append, List.cons_append, List.cons_append,
      List.cons_append, List.cons_append, List.cons_append, List.cons_append, List.cons_append,
      List.singleton_append, read_nine, hvalue]
    rfl

/-! ### No byte string makes a read panic -/

def Within (buf : List UInt8) (x : Outcome Error (UInt64 × Nat)) : Prop :=
  NoPanic x ∧ ∀ v n, x = .ok (v, n) → n ≤ buf.length

theorem within_err (buf : List UInt8) (e : Error) : Within buf (.err e) :=
  ⟨noPanic_err e, nofun⟩

theorem within_ok {buf : List UInt8} {v : UInt64} {n : Nat} (h : n ≤ buf.length) :
    Within buf (.ok (v, n)) := by
  refine ⟨noPanic_ok _, ?_⟩
  intro v' n' hok
  cases hok
  exact h

theorem within_index {buf : List UInt8} {i : Nat} {f : UInt8 → Outcome Error (UInt64 × Nat)}
    (hi : i < buf.length) (hf : ∀ b, Within buf (f b)) : Within buf (index buf i >>= f) := by
  rw [index_of_lt hi, ok_bind]
  exact hf _

theorem within_read (buf : List UInt8) : Within buf (read buf) := by
  unfold read
  split
  · exact within_err buf _
  rename_i hempty
  have hpos : 0 < buf.length := by
    rw [List.length_pos_iff]
    rintro rfl
    exact hempty rfl
  refine within_index hpos fun first => ?_
  split
  · exact within_ok hpos
  split
  · split
    · exact within_err buf _
    · refine within_index (by omega) fun b1 => ?_
      exact within_ok (by omega)
  split
  · split
    · exact within_err buf _
    · refine within_index (by omega) fun b1 => within_index (by omega) fun b2 => ?_
      exact within_ok (by omega)
  split
  · split
    · exact within_err buf _
    · refine within_index (by omega) fun b1 => within_index (by omega) fun b2 =>
        within_index (by omega) fun b3 => ?_
      exact within_ok (by omega)
  split
  · split
    · exact within_err buf _
    · refine within_index (by omega) fun b1 => within_index (by omega) fun b2 =>
        within_index (by omega) fun b3 => within_index (by omega) fun b4 => ?_
      exact within_ok (by omega)
  split
  · split
    · exact within_err buf _
    · refine within_index (by omega) fun b1 => within_index (by omega) fun b2 =>
        within_index (by omega) fun b3 => within_index (by omega) fun b4 =>
        within_index (by omega) fun b5 => within_index (by omega) fun b6 =>
        within_index (by omega) fun b7 => within_index (by omega) fun b8 => ?_
      exact within_ok (by omega)
  · exact within_err buf _

end MumbleVarint

/-! ## Packets -/

inductive Header where
  | target (target : UInt32)
  | context (context : UInt32)
deriving DecidableEq

/-- `mumble_udp::Audio`, with its floats as their bits. -/
structure Audio where
  header : Option Header
  senderSession : UInt32
  frameNumber : UInt64
  opusData : List UInt8
  positionalData : List UInt32
  volumeAdjustment : UInt32
  isTerminator : Bool
deriving DecidableEq

def headerTarget (audio : Audio) : UInt8 :=
  match audio.header with
  | some (.target t) => t.toUInt8 &&& 0x1F
  | _ => 0

/-! ### The legacy format -/

namespace LegacyAudioCodec

def lenTerm (audio : Audio) : UInt64 :=
  let len := UInt64.ofNat audio.opusData.length &&& 0x1FFF
  if audio.isTerminator then len ||| 0x2000 else len

def encode (audio : Audio) : List UInt8 :=
  (AudioType.opus.toU8 <<< 5 ||| headerTarget audio) ::
    (MumbleVarint.write audio.frameNumber ++ MumbleVarint.write (lenTerm audio) ++ audio.opusData)

def decode (data : List UInt8) : Outcome Error Audio :=
  if data.isEmpty then .err (.invalidState "empty audio packet")
  else do
    let header ← index data 0
    let audioType := header >>> 5
    let target := header &&& 0x1F
    if audioType ≠ AudioType.opus.toU8 then
      .err (.invalidState
        s!"unsupported audio type {audioType} (expected Opus = {AudioType.opus.toU8})")
    else do
      let pos := 1
      let atSession ← sliceFrom data pos
      let (session, n) ← MumbleVarint.read atSession
      let pos := pos + n
      let atSequence ← sliceFrom data pos
      let (sequence, n) ← MumbleVarint.read atSequence
      let pos := pos + n
      let atLength ← sliceFrom data pos
      let (lenTerm, n) ← MumbleVarint.read atLength
      let pos := pos + n
      let opusLen := (lenTerm &&& 0x1FFF).toNat
      if pos + opusLen > data.length then do
        let available ← checkedSub data.length pos
        .err (.invalidState s!"opus data truncated: need {opusLen} bytes, have {available}")
      else do
        let opusData ← slice data pos (pos + opusLen)
        pure
          { header := some (.target target.toUInt32), senderSession := session.toUInt32,
            frameNumber := sequence, opusData := opusData, positionalData := [],
            volumeAdjustment := 0, isTerminator := lenTerm &&& 0x2000 ≠ 0 }

end LegacyAudioCodec

/-! ### The protobuf format -/

structure Prost where
  encodeToVec : Audio → List UInt8
  decode : List UInt8 → Except String Audio

namespace ProtobufAudioCodec

variable (prost : Prost)

def encode (audio : Audio) : List UInt8 :=
  (AudioType.protobuf.toU8 <<< 5 ||| headerTarget audio) ::
    prost.encodeToVec { audio with header := none }

def decode (data : List UInt8) : Outcome Error Audio := do
  let first ← index data 0
  let target := (first &&& 0x1F).toUInt32
  let payload ← sliceFrom data 1
  let audio ← ofExcept (fun e => .invalidState s!"protobuf audio decode: {e}")
    (prost.decode payload)
  pure (if audio.header = none then { audio with header := some (.target target) } else audio)

end ProtobufAudioCodec

def decodeTunnelAudio (prost : Prost) (data : List UInt8) : Outcome Error Audio :=
  if data.isEmpty then .err (.invalidState "empty UdpTunnel payload")
  else do
    let first ← index data 0
    let audioType ← ofExcept id (AudioType.tryFrom (first >>> 5))
    match audioType with
    | .protobuf => ProtobufAudioCodec.decode prost data
    | .opus => LegacyAudioCodec.decode data

/-- What the server makes of a legacy packet before it passes it on: the sender's session
stands after the header. -/
def insertSession (session : UInt32) : List UInt8 → List UInt8
  | [] => []
  | header :: rest => header :: (MumbleVarint.write session.toUInt64 ++ rest)

end FancyMumble.Transport
