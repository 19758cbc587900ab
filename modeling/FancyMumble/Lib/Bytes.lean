import Mathlib.Data.Nat.Bitwise
import Mathlib.Tactic.Ring

/-!
# Byte strings as integers

Little-endian and big-endian readings of a byte string, with the facts that
let a byte-level loop (a carry, a one-bit shift, an xor) be replaced by the
integer operation it computes.
-/

namespace FancyMumble.Lib.Bytes

/-! ## Little-endian values -/

def leNat : List UInt8 → Nat
  | [] => 0
  | b :: bs => b.toNat + 256 * leNat bs

def leBytes : Nat → Nat → List UInt8
  | 0, _ => []
  | width + 1, n => UInt8.ofNat n :: leBytes width (n / 256)

@[simp] theorem length_leBytes (width n : Nat) : (leBytes width n).length = width := by
  induction width generalizing n with
  | zero => rfl
  | succ width ih => simp [leBytes, ih]

theorem leNat_lt (bs : List UInt8) : leNat bs < 256 ^ bs.length := by
  induction bs with
  | nil => simp [leNat]
  | cons b bs ih =>
      have hb := b.toNat_lt
      rw [leNat, List.length_cons, Nat.pow_succ]
      omega

theorem leNat_leBytes (width n : Nat) : leNat (leBytes width n) = n % 256 ^ width := by
  induction width generalizing n with
  | zero => simp [leBytes, leNat, Nat.mod_one]
  | succ width ih =>
      rw [leBytes, leNat, ih, UInt8.toNat_ofNat', Nat.pow_succ' (n := width), Nat.mod_mul]

theorem leBytes_leNat (bs : List UInt8) : leBytes bs.length (leNat bs) = bs := by
  induction bs with
  | nil => rfl
  | cons b bs ih =>
      have hb := b.toNat_lt
      have hdiv : (b.toNat + 256 * leNat bs) / 256 = leNat bs := by omega
      have hmod : UInt8.ofNat (b.toNat + 256 * leNat bs) = b := by
        apply UInt8.toNat_inj.mp
        rw [UInt8.toNat_ofNat']
        omega
      rw [List.length_cons, leBytes, leNat, hdiv, hmod, ih]

theorem leNat_inj {as bs : List UInt8} (hlength : as.length = bs.length)
    (h : leNat as = leNat bs) : as = bs := by
  rw [← leBytes_leNat as, ← leBytes_leNat bs, hlength, h]

/-! ## The carry loop -/

/-- Add one to a little-endian byte string: each byte is incremented, and the
loop stops at the first byte that does not wrap to zero. -/
def incr : List UInt8 → List UInt8
  | [] => []
  | b :: bs => if b + 1 ≠ 0 then (b + 1) :: bs else (b + 1) :: incr bs

@[simp] theorem length_incr (bs : List UInt8) : (incr bs).length = bs.length := by
  induction bs with
  | nil => rfl
  | cons b bs ih =>
      rw [incr]
      split <;> simp [ih]

theorem toNat_add_one (b : UInt8) : (b + 1).toNat = (b.toNat + 1) % 256 := by
  simp

theorem leNat_incr (bs : List UInt8) :
    leNat (incr bs) = (leNat bs + 1) % 256 ^ bs.length := by
  induction bs with
  | nil => simp [incr, leNat]
  | cons b bs ih =>
      have hb := b.toNat_lt
      have hbs := leNat_lt bs
      have hsucc := toNat_add_one b
      have hzero : b + 1 = 0 ↔ b.toNat = 255 := by
        rw [← UInt8.toNat_inj, hsucc]
        simp
        omega
      rw [incr, List.length_cons, Nat.pow_succ, Nat.mul_comm (256 ^ bs.length) 256]
      by_cases hwrap : b + 1 = 0
      · -- the byte wraps, and the carry runs on into the higher bytes
        rw [if_neg (by simpa using hwrap), leNat, leNat, ih, hsucc, Nat.mod_mul]
        have := hzero.mp hwrap
        have hdiv : (b.toNat + 256 * leNat bs + 1) / 256 = leNat bs + 1 := by omega
        rw [hdiv]
        omega
      · rw [if_pos hwrap, leNat, leNat, hsucc, Nat.mod_eq_of_lt (b := 256 * 256 ^ bs.length)]
        · have : b.toNat ≠ 255 := fun h => hwrap (hzero.mpr h)
          omega
        · have : b.toNat ≠ 255 := fun h => hwrap (hzero.mpr h)
          omega

/-! ## Big-endian values -/

def beNat : List UInt8 → Nat
  | [] => 0
  | b :: bs => b.toNat * 256 ^ bs.length + beNat bs

theorem beNat_lt (bs : List UInt8) : beNat bs < 256 ^ bs.length := by
  induction bs with
  | nil => simp [beNat]
  | cons b bs ih =>
      have hb := b.toNat_lt
      rw [beNat, List.length_cons, Nat.pow_succ]
      have : b.toNat * 256 ^ bs.length ≤ 255 * 256 ^ bs.length :=
        Nat.mul_le_mul_right _ (by omega)
      omega

theorem beNat_inj {as bs : List UInt8} (hlength : as.length = bs.length)
    (h : beNat as = beNat bs) : as = bs := by
  induction as generalizing bs with
  | nil => simpa using hlength.symm
  | cons a as ih =>
      cases bs with
      | nil => simp at hlength
      | cons b bs =>
          have hlength' : as.length = bs.length := by simpa using hlength
          have ha := beNat_lt as
          have hb := beNat_lt bs
          rw [beNat, beNat, hlength'] at h
          rw [hlength'] at ha
          have hpos : 0 < 256 ^ bs.length := Nat.pow_pos (by omega)
          have hhead : a.toNat = b.toNat := by
            have h₁ := congrArg (· / 256 ^ bs.length) h
            simpa [Nat.mul_comm _ (256 ^ bs.length), Nat.mul_add_div hpos,
              Nat.div_eq_of_lt ha, Nat.div_eq_of_lt hb] using h₁
          have htail : beNat as = beNat bs := by
            rw [hhead] at h
            omega
          rw [UInt8.toNat_inj.mp hhead, ih hlength' htail]

theorem beNat_append (as bs : List UInt8) :
    beNat (as ++ bs) = beNat as * 256 ^ bs.length + beNat bs := by
  induction as with
  | nil => simp [beNat]
  | cons a as ih =>
      rw [List.cons_append, beNat, beNat, ih, List.length_append, Nat.pow_add, Nat.add_mul,
        Nat.mul_assoc, Nat.add_assoc]

def beBytes (width n : Nat) : List UInt8 := (leBytes width n).reverse

@[simp] theorem length_beBytes (width n : Nat) : (beBytes width n).length = width := by
  simp [beBytes]

theorem beNat_reverse (bs : List UInt8) : beNat bs.reverse = leNat bs := by
  induction bs with
  | nil => rfl
  | cons b bs ih =>
      rw [List.reverse_cons, beNat_append, ih, leNat]
      simp only [beNat, List.length_cons, List.length_nil]
      omega

theorem beNat_beBytes (width n : Nat) : beNat (beBytes width n) = n % 256 ^ width := by
  rw [beBytes, beNat_reverse, leNat_leBytes]

/-! ## Bitwise xor -/

def xor (as bs : List UInt8) : List UInt8 := List.zipWith (· ^^^ ·) as bs

theorem xor_xor_cancel {as bs : List UInt8} (hlength : as.length = bs.length) :
    xor (xor as bs) bs = as := by
  induction as generalizing bs with
  | nil => rfl
  | cons a as ih =>
      cases bs with
      | nil => cases hlength
      | cons b bs =>
          have htail := ih (Nat.succ.inj hlength)
          unfold xor at htail ⊢
          rw [List.zipWith_cons_cons, List.zipWith_cons_cons, htail, UInt8.xor_assoc,
            UInt8.xor_self, UInt8.xor_zero]

theorem beNat_xor {as bs : List UInt8} (hlength : as.length = bs.length) :
    beNat (xor as bs) = beNat as ^^^ beNat bs := by
  induction as generalizing bs with
  | nil =>
      cases bs with
      | nil => rfl
      | cons b bs => simp at hlength
  | cons a as ih =>
      cases bs with
      | nil => simp at hlength
      | cons b bs =>
          have hlength' : as.length = bs.length := by simpa using hlength
          have hxor : (xor as bs).length = bs.length := by simp [xor, hlength']
          have hx := beNat_lt (xor as bs)
          have ha := beNat_lt as
          have hb := beNat_lt bs
          rw [hxor] at hx
          rw [hlength'] at ha
          have h256 : (256 : Nat) ^ bs.length = 2 ^ (8 * bs.length) := by
            rw [Nat.pow_mul]
          rw [h256] at hx ha hb
          apply Nat.eq_of_testBit_eq
          intro i
          change Nat.testBit (beNat ((a ^^^ b) :: xor as bs)) i = _
          rw [Nat.testBit_xor, beNat, beNat, beNat, hxor, hlength', h256, UInt8.toNat_xor,
            Nat.mul_comm _ (2 ^ _), Nat.mul_comm _ (2 ^ _), Nat.mul_comm _ (2 ^ _),
            Nat.testBit_two_pow_mul_add _ hx, Nat.testBit_two_pow_mul_add _ ha,
            Nat.testBit_two_pow_mul_add _ hb]
          split
          · rw [ih hlength', Nat.testBit_xor]
          · rw [Nat.testBit_xor]

/-! ## Shifting a big-endian string by one bit -/

def shiftLeftOne : List UInt8 → List UInt8
  | [] => []
  | [b] => [b <<< 1]
  | b :: c :: bs => ((b <<< 1) ||| (c >>> 7)) :: shiftLeftOne (c :: bs)

@[simp] theorem length_shiftLeftOne (bs : List UInt8) :
    (shiftLeftOne bs).length = bs.length := by
  induction bs with
  | nil => rfl
  | cons b bs ih =>
      cases bs with
      | nil => rfl
      | cons c bs => simp [shiftLeftOne, ih]

theorem toNat_shiftLeft_or (b c : UInt8) :
    ((b <<< 1) ||| (c >>> 7)).toNat = (2 * b.toNat + c.toNat / 128) % 256 := by
  have hb := b.toNat_lt
  have hc := c.toNat_lt
  rw [UInt8.toNat_or, UInt8.toNat_shiftLeft, UInt8.toNat_shiftRight]
  simp only [UInt8.reduceToNat, Nat.reduceMod, Nat.shiftLeft_eq, Nat.shiftRight_eq_div_pow,
    Nat.reducePow]
  have hor : b.toNat * 2 % 256 ||| c.toNat / 128 = b.toNat * 2 % 256 + c.toNat / 128 := by
    have h := Nat.two_pow_add_eq_or_of_lt (i := 1) (b := c.toNat / 128) (by omega)
      (b.toNat * 2 % 256 / 2)
    rw [show (2 : Nat) ^ 1 * (b.toNat * 2 % 256 / 2) = b.toNat * 2 % 256 by omega] at h
    exact h.symm
  rw [hor]
  omega

theorem beNat_shiftLeftOne (bs : List UInt8) :
    beNat (shiftLeftOne bs) = 2 * beNat bs % 256 ^ bs.length := by
  induction bs with
  | nil => rfl
  | cons b bs ih =>
      have hb := b.toNat_lt
      cases bs with
      | nil =>
          simp only [shiftLeftOne, beNat, List.length_nil, List.length_cons]
          rw [UInt8.toNat_shiftLeft]
          simp [Nat.shiftLeft_eq]
          omega
      | cons c bs =>
          have hlt := beNat_lt (c :: bs)
          have hcarry : 2 * beNat (c :: bs) / 256 ^ (c :: bs).length = c.toNat / 128 := by
            have hbs := beNat_lt bs
            have hc := c.toNat_lt
            have hc' := Nat.div_add_mod c.toNat 128
            have hpos : 0 < 256 ^ bs.length := Nat.pow_pos (by omega)
            rw [beNat, List.length_cons, Nat.pow_succ]
            generalize 256 ^ bs.length = q at *
            rcases Nat.lt_or_ge c.toNat 128 with hlow | hhigh
            · have hle : c.toNat * q ≤ 127 * q := Nat.mul_le_mul_right _ (by omega)
              rw [Nat.div_eq_of_lt (by omega)]
              omega
            · have hle : 128 * q ≤ c.toNat * q := Nat.mul_le_mul_right _ hhigh
              have hle' : c.toNat * q ≤ 255 * q := Nat.mul_le_mul_right _ (by omega)
              rw [Nat.div_eq_of_lt_le (k := 1) (by omega) (by omega)]
              omega
          rw [shiftLeftOne, beNat, ih, length_shiftLeftOne, toNat_shiftLeft_or, ← hcarry,
            List.length_cons (a := b), Nat.pow_succ,
            show beNat (b :: c :: bs) = b.toNat * 256 ^ (c :: bs).length + beNat (c :: bs) from rfl]
          generalize beNat (c :: bs) = v at *
          have hpos : 0 < 256 ^ (c :: bs).length := Nat.pow_pos (by omega)
          generalize 256 ^ (c :: bs).length = q at *
          rw [Nat.mod_mul, show 2 * (b.toNat * q + v) = q * (2 * b.toNat) + 2 * v by ring,
            Nat.mul_add_mod, Nat.mul_add_div hpos]
          ring

/-! ## Fixed-width encodings and byte arrays -/

theorem leBytes_inj {width m n : Nat} (hm : m < 256 ^ width) (hn : n < 256 ^ width)
    (h : leBytes width m = leBytes width n) : m = n := by
  have hvalue := congrArg leNat h
  rwa [leNat_leBytes, leNat_leBytes, Nat.mod_eq_of_lt hm, Nat.mod_eq_of_lt hn] at hvalue

theorem toList_loop (bytes : ByteArray) (i : Nat) (acc : List UInt8) :
    ByteArray.toList.loop bytes i acc = acc.reverse ++ bytes.data.toList.drop i := by
  fun_induction ByteArray.toList.loop bytes i acc with
  | case1 i acc hlt ih =>
      have hbyte : bytes.get! i = bytes.data[i] := getElem!_pos bytes.data i hlt
      rw [ih, List.drop_eq_getElem_cons (show i < bytes.data.toList.length from hlt), hbyte]
      simp
  | case2 i acc hge =>
      rw [List.drop_eq_nil_of_le (Nat.le_of_not_lt hge), List.append_nil]

theorem byteArray_toList_inj {as bs : ByteArray} (h : as.toList = bs.toList) : as = bs := by
  apply ByteArray.ext
  apply Array.toList_inj.mp
  simpa [ByteArray.toList, toList_loop] using h

end FancyMumble.Lib.Bytes
