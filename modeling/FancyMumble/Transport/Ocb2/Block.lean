import FancyMumble.Lib.Bytes
import FancyMumble.Lib.Gf128

/-!
# OCB2 blocks

The 16-byte blocks of the cipher with the byte loops that work on them: the
doublings `s2` and `s3`, the xors, and the carries of the nonce counter. Each
loop is tied to the operation it implements on 128-bit words.
-/

namespace FancyMumble.Transport.Ocb2

open Lib

def aesBlockSize : Nat := 16

@[ext] structure Block where
  bytes : List UInt8
  length_bytes : bytes.length = 16
deriving DecidableEq

attribute [simp] Block.length_bytes

namespace Block

def replicate (byte : UInt8) : Block := ⟨List.replicate 16 byte, by simp⟩

def zero : Block := replicate 0

def ofBytes? (bytes : List UInt8) : Option Block :=
  if h : bytes.length = 16 then some ⟨bytes, h⟩ else none

theorem mem_ofBytes?_iff {block : Block} {bytes : List UInt8} :
    block ∈ ofBytes? bytes ↔ block.bytes = bytes := by
  rw [Option.mem_def, ofBytes?]
  constructor
  · intro h
    split at h
    · exact (congrArg Block.bytes (Option.some.inj h)).symm
    · cases h
  · rintro rfl
    rw [dif_pos block.length_bytes]

def overlay (block : Block) (bytes : List UInt8) : Block :=
  ⟨bytes.take 16 ++ block.bytes.drop bytes.length, by simp; omega⟩

def xorBlocks (a b : Block) : Block := ⟨Bytes.xor a.bytes b.bytes, by simp [Bytes.xor]⟩

instance : XorOp Block := ⟨xorBlocks⟩

def lastByte (byte : UInt8) : Block := ⟨List.replicate 15 0 ++ [byte], by simp⟩

def byte (block : Block) (i : Nat) : UInt8 := block.bytes.getD i 0

/-- `s2`: the bytes shifted left by one bit, with `carry * 0x87` folded into the
last one. -/
def s2 (block : Block) : Block :=
  ⟨Bytes.shiftLeftOne block.bytes, by simp⟩ ^^^ lastByte ((block.byte 0 >>> 7) * 0x87)

def s3 (block : Block) : Block :=
  block ^^^ (⟨Bytes.shiftLeftOne block.bytes, by simp⟩ ^^^ lastByte ((block.byte 0 >>> 7) * 0x87))

theorem s3_eq (block : Block) : s3 block = block ^^^ s2 block := rfl

/-! ## Blocks as 128-bit words -/

def toBitVec (block : Block) : BitVec 128 := BitVec.ofNat 128 (Bytes.beNat block.bytes)

theorem beNat_lt (block : Block) : Bytes.beNat block.bytes < 2 ^ 128 := by
  have h := Bytes.beNat_lt block.bytes
  rw [block.length_bytes] at h
  omega

theorem toNat_toBitVec (block : Block) : block.toBitVec.toNat = Bytes.beNat block.bytes := by
  rw [toBitVec, BitVec.toNat_ofNat, Nat.mod_eq_of_lt block.beNat_lt]

theorem toBitVec_injective : Function.Injective toBitVec := by
  intro a b h
  have hvalue : Bytes.beNat a.bytes = Bytes.beNat b.bytes := by
    rw [← toNat_toBitVec, ← toNat_toBitVec, h]
  apply Block.ext
  exact Bytes.beNat_inj (by simp) hvalue

instance : Finite Block :=
  Finite.of_injective (fun block => block.toBitVec.toFin) fun _ _ h =>
    toBitVec_injective (BitVec.toFin_inj.mp h)

@[simp] theorem toBitVec_xor (a b : Block) : (a ^^^ b).toBitVec = a.toBitVec ^^^ b.toBitVec := by
  apply BitVec.eq_of_toNat_eq
  rw [BitVec.toNat_xor, toNat_toBitVec, toNat_toBitVec, toNat_toBitVec]
  exact Bytes.beNat_xor (by simp)

@[simp] theorem toBitVec_zero : zero.toBitVec = 0#128 := by decide

theorem beNat_replicate_zero_append (n : Nat) (bs : List UInt8) :
    Bytes.beNat (List.replicate n 0 ++ bs) = Bytes.beNat bs := by
  induction n with
  | zero => rfl
  | succ n ih => simp [List.replicate_succ, Bytes.beNat, ih]

theorem toNat_toBitVec_lastByte (byte : UInt8) : (lastByte byte).toBitVec.toNat = byte.toNat := by
  rw [toNat_toBitVec, lastByte, beNat_replicate_zero_append]
  simp [Bytes.beNat]

theorem byte_zero_eq_div (block : Block) :
    (block.byte 0).toNat = Bytes.beNat block.bytes / 2 ^ 120 := by
  obtain ⟨bytes, hlength⟩ := block
  cases bytes with
  | nil => simp at hlength
  | cons b bs =>
      have hbs := Bytes.beNat_lt bs
      have hlength' : bs.length = 15 := by simpa using hlength
      rw [hlength'] at hbs
      simp only [byte, List.getD_cons_zero, Bytes.beNat, hlength']
      omega

theorem toBitVec_s2 (block : Block) : block.s2.toBitVec = Gf128.dbl block.toBitVec := by
  have hshift : (⟨Bytes.shiftLeftOne block.bytes, by simp⟩ : Block).toBitVec =
      block.toBitVec <<< 1 := by
    apply BitVec.eq_of_toNat_eq
    rw [toNat_toBitVec, BitVec.toNat_shiftLeft, toNat_toBitVec, Bytes.beNat_shiftLeftOne,
      block.length_bytes, Nat.shiftLeft_eq]
    omega
  have hcarry : (lastByte ((block.byte 0 >>> 7) * 0x87)).toBitVec =
      if block.toBitVec.msb then 0x87#128 else 0#128 := by
    have hhead := block.byte_zero_eq_div
    have hlt := block.beNat_lt
    have hbyte := (block.byte 0).toNat_lt
    apply BitVec.eq_of_toNat_eq
    rw [toNat_toBitVec_lastByte, BitVec.msb_eq_decide, toNat_toBitVec, UInt8.toNat_mul,
      UInt8.toNat_shiftRight]
    simp only [UInt8.reduceToNat, Nat.reduceMod, Nat.shiftRight_eq_div_pow, Nat.reducePow]
    by_cases hmsb : 2 ^ (128 - 1) ≤ Bytes.beNat block.bytes
    · have : (block.byte 0).toNat / 128 = 1 := by omega
      simp only [hmsb, decide_true, if_true, this]
      rfl
    · have : (block.byte 0).toNat / 128 = 0 := by omega
      simp only [hmsb, decide_false, Bool.false_eq_true, if_false, this]
      rfl
  rw [s2, toBitVec_xor, hshift, hcarry, Gf128.dbl]

/-! ## Xor -/

theorem xor_comm (a b : Block) : a ^^^ b = b ^^^ a := by
  apply toBitVec_injective
  simp [BitVec.xor_comm]

theorem xor_assoc (a b c : Block) : a ^^^ b ^^^ c = a ^^^ (b ^^^ c) := by
  apply toBitVec_injective
  simp [BitVec.xor_assoc]

theorem xor_left_comm (a b c : Block) : a ^^^ (b ^^^ c) = b ^^^ (a ^^^ c) := by
  rw [← xor_assoc, xor_comm a b, xor_assoc]

@[simp] theorem xor_self (a : Block) : a ^^^ a = zero := by
  apply toBitVec_injective
  simp

@[simp] theorem xor_zero (a : Block) : a ^^^ zero = a := by
  apply toBitVec_injective
  simp

@[simp] theorem zero_xor (a : Block) : zero ^^^ a = a := by
  apply toBitVec_injective
  simp

@[simp] theorem xor_xor_self_left (a b : Block) : a ^^^ (a ^^^ b) = b := by
  rw [← xor_assoc, xor_self, zero_xor]

@[simp] theorem xor_xor_self_right (a b : Block) : a ^^^ b ^^^ b = a := by
  rw [xor_assoc, xor_self, xor_zero]

theorem xor_eq_iff {a b c : Block} : a ^^^ b = c ↔ a = c ^^^ b := by
  constructor
  · rintro rfl
    simp
  · rintro rfl
    simp

theorem bytes_xor (a b : Block) : (a ^^^ b).bytes = Bytes.xor a.bytes b.bytes := rfl

/-! ## Overlays -/

theorem bytes_overlay {block : Block} {bytes : List UInt8} (h : bytes.length ≤ 16) :
    (block.overlay bytes).bytes = bytes ++ block.bytes.drop bytes.length := by
  rw [overlay]
  simp only [List.take_of_length_le h]

@[simp] theorem take_overlay {block : Block} {bytes : List UInt8} (h : bytes.length ≤ 16) :
    (block.overlay bytes).bytes.take bytes.length = bytes := by
  rw [bytes_overlay h]
  simp

/-! ## The nonce counter -/

def leNat (iv : Block) : Nat := Bytes.leNat iv.bytes

theorem pow_length_bytes (iv : Block) : 256 ^ iv.bytes.length = 2 ^ 128 := by
  rw [iv.length_bytes]
  norm_num

theorem leNat_lt (iv : Block) : iv.leNat < 2 ^ 128 := by
  rw [← iv.pow_length_bytes]
  exact Bytes.leNat_lt iv.bytes

theorem leNat_inj {a b : Block} (h : a.leNat = b.leNat) : a = b :=
  Block.ext (Bytes.leNat_inj (by simp) h)

def ofLeNat (n : Nat) : Block := ⟨Bytes.leBytes 16 n, by simp⟩

@[simp] theorem leNat_ofLeNat (n : Nat) : (ofLeNat n).leNat = n % 2 ^ 128 := by
  rw [leNat, ofLeNat, Bytes.leNat_leBytes]
  norm_num

theorem byte_zero_ofLeNat (n : Nat) : (ofLeNat n).byte 0 = UInt8.ofNat n := rfl

theorem byte_one_ofLeNat (n : Nat) : (ofLeNat n).byte 1 = UInt8.ofNat (n / 256) := rfl

@[simp] theorem ofLeNat_leNat (iv : Block) : ofLeNat iv.leNat = iv := by
  apply leNat_inj
  rw [leNat_ofLeNat, Nat.mod_eq_of_lt iv.leNat_lt]

/-- The increment loop of `encrypt`: add one, and carry on into the next byte
while the byte wraps to zero. -/
def incrIv (iv : Block) : Block := ⟨Bytes.incr iv.bytes, by simp⟩

@[simp] theorem leNat_incrIv (iv : Block) : iv.incrIv.leNat = (iv.leNat + 1) % 2 ^ 128 := by
  rw [leNat, incrIv, Bytes.leNat_incr, iv.pow_length_bytes, ← leNat]

theorem toNat_byte_zero (iv : Block) : (iv.byte 0).toNat = iv.leNat % 256 := by
  obtain ⟨bytes, hlength⟩ := iv
  cases bytes with
  | nil => simp at hlength
  | cons b bs =>
      have hb := b.toNat_lt
      simp only [byte, leNat, Bytes.leNat, List.getD_cons_zero]
      omega

theorem toNat_byte_one (iv : Block) : (iv.byte 1).toNat = iv.leNat / 256 % 256 := by
  obtain ⟨bytes, hlength⟩ := iv
  match bytes with
  | [] => simp at hlength
  | [_] => simp at hlength
  | b :: c :: bs =>
      have hb := b.toNat_lt
      have hc := c.toNat_lt
      simp only [byte, leNat, Bytes.leNat, List.getD_cons_zero, List.getD_cons_succ]
      omega

def setFirst (iv : Block) (byte : UInt8) : Block := ⟨iv.bytes.set 0 byte, by simp⟩

@[simp] theorem leNat_setFirst (iv : Block) (byte : UInt8) :
    (iv.setFirst byte).leNat = iv.leNat - iv.leNat % 256 + byte.toNat := by
  obtain ⟨bytes, hlength⟩ := iv
  cases bytes with
  | nil => simp at hlength
  | cons b bs =>
      have hb := b.toNat_lt
      simp only [setFirst, leNat, Bytes.leNat, List.set_cons_zero]
      omega

def carryIvBytes (iv : Block) : Block :=
  ⟨iv.bytes.take 1 ++ Bytes.incr (iv.bytes.drop 1), by simp⟩

theorem leNat_carryIvBytes (iv : Block) :
    iv.carryIvBytes.leNat = iv.leNat % 256 + 256 * ((iv.leNat / 256 + 1) % 2 ^ 120) := by
  obtain ⟨bytes, hlength⟩ := iv
  cases bytes with
  | nil => simp at hlength
  | cons b bs =>
      have hb := b.toNat_lt
      have hlength' : bs.length = 15 := by simpa using hlength
      have hdiv : (b.toNat + 256 * Bytes.leNat bs) / 256 = Bytes.leNat bs := by omega
      have hmod : (b.toNat + 256 * Bytes.leNat bs) % 256 = b.toNat := by omega
      simp only [carryIvBytes, leNat, List.take_succ_cons, List.take_zero, List.drop_succ_cons,
        List.drop_zero, List.cons_append, List.nil_append, Bytes.leNat, Bytes.leNat_incr,
        hlength', hdiv, hmod]
      norm_num

end Block

end FancyMumble.Transport.Ocb2
