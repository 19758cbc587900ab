import Mathlib.NumberTheory.LucasPrimality
import Mathlib.Tactic.ReduceModChar
import Mathlib.Tactic.NormNum.Prime

/-!
# Doubling in GF(2^128)

Multiplication by `x` modulo `x^128 + x^7 + x^2 + x + 1`, on 128-bit words.
The main result is that doubling moves every nonzero word through a cycle of
length exactly `2^128 - 1`, with the power of `x` that equals `x + 1`: two
different powers of `x` (or of `x` and `x + 1`) never agree on a nonzero word.
-/

namespace FancyMumble.Lib.Gf128

def dbl (a : BitVec 128) : BitVec 128 :=
  (a <<< 1) ^^^ (if a.msb then 0x87#128 else 0#128)

def mulBits : Nat → BitVec 128 → BitVec 128 → BitVec 128
  | 0, _, _ => 0#128
  | n + 1, a, b => (if a.getLsbD 0 then b else 0#128) ^^^ mulBits n (a >>> 1) (dbl b)

def mul (a b : BitVec 128) : BitVec 128 := mulBits 128 a b

/-! ## Linearity -/

@[simp] theorem dbl_zero : dbl 0#128 = 0#128 := by decide

theorem xor_xor_xor_cancel (a b c : BitVec 128) : (a ^^^ c) ^^^ (b ^^^ c) = a ^^^ b := by
  rw [BitVec.xor_comm b c, BitVec.xor_assoc, ← BitVec.xor_assoc c c b, BitVec.xor_self,
    BitVec.zero_xor]

theorem dbl_xor (a b : BitVec 128) : dbl (a ^^^ b) = dbl a ^^^ dbl b := by
  have hmsb : (a ^^^ b).msb = (a.msb != b.msb) := by simp
  rw [dbl, dbl, dbl, BitVec.shiftLeft_xor_distrib, hmsb]
  cases a.msb with
  | false =>
      cases b.msb with
      | false => simp
      | true =>
          simp
          ac_rfl
  | true =>
      cases b.msb with
      | false =>
          simp
          ac_rfl
      | true =>
          simp only [bne_self_eq_false, Bool.false_eq_true, if_false, if_true, BitVec.xor_zero]
          exact (xor_xor_xor_cancel _ _ _).symm

theorem mulBits_xor_right (n : Nat) (a b c : BitVec 128) :
    mulBits n a (b ^^^ c) = mulBits n a b ^^^ mulBits n a c := by
  induction n generalizing a b c with
  | zero => simp [mulBits]
  | succ n ih =>
      rw [mulBits, mulBits, mulBits, dbl_xor, ih]
      cases a.getLsbD 0 with
      | false => simp
      | true =>
          simp
          ac_rfl

theorem mulBits_xor_left (n : Nat) (a b c : BitVec 128) :
    mulBits n (a ^^^ b) c = mulBits n a c ^^^ mulBits n b c := by
  induction n generalizing a b c with
  | zero => simp [mulBits]
  | succ n ih =>
      rw [mulBits, mulBits, mulBits, BitVec.ushiftRight_xor_distrib, ih, BitVec.getLsbD_xor]
      cases a.getLsbD 0 with
      | false =>
          cases b.getLsbD 0 with
          | false => simp
          | true =>
              simp
              ac_rfl
      | true =>
          cases b.getLsbD 0 with
          | false =>
              simp
              ac_rfl
          | true =>
              simp only [bne_self_eq_false, Bool.false_eq_true, if_false, if_true,
                BitVec.zero_xor]
              rw [BitVec.xor_comm c, BitVec.xor_comm c, xor_xor_xor_cancel]

theorem mulBits_dbl_right (n : Nat) (a b : BitVec 128) :
    mulBits n a (dbl b) = dbl (mulBits n a b) := by
  induction n generalizing a b with
  | zero => simp [mulBits]
  | succ n ih =>
      rw [mulBits, mulBits, dbl_xor, ih]
      cases a.getLsbD 0 <;> simp

@[simp] theorem mulBits_zero_right (n : Nat) (a : BitVec 128) : mulBits n a 0#128 = 0#128 := by
  induction n generalizing a with
  | zero => rfl
  | succ n ih => simp [mulBits, ih]

@[simp] theorem mulBits_zero_left (n : Nat) (b : BitVec 128) : mulBits n 0#128 b = 0#128 := by
  induction n generalizing b with
  | zero => rfl
  | succ n ih => simp [mulBits, ih]

theorem mul_xor_right (a b c : BitVec 128) : mul a (b ^^^ c) = mul a b ^^^ mul a c :=
  mulBits_xor_right 128 a b c

theorem mul_xor_left (a b c : BitVec 128) : mul (a ^^^ b) c = mul a c ^^^ mul b c :=
  mulBits_xor_left 128 a b c

theorem mul_dbl_right (a b : BitVec 128) : mul a (dbl b) = dbl (mul a b) :=
  mulBits_dbl_right 128 a b

@[simp] theorem one_mul (b : BitVec 128) : mul 1#128 b = b := by
  rw [mul, mulBits]
  simp

/-! ## The reduction polynomial -/

theorem dbl_iterate_xor (n : Nat) (a b : BitVec 128) :
    dbl^[n] (a ^^^ b) = dbl^[n] a ^^^ dbl^[n] b := by
  induction n generalizing a b with
  | zero => rfl
  | succ n ih => rw [Function.iterate_succ_apply, dbl_xor, ih]; rfl

theorem mul_dbl_iterate_right (n : Nat) (a b : BitVec 128) :
    mul a (dbl^[n] b) = dbl^[n] (mul a b) := by
  induction n generalizing b with
  | zero => rfl
  | succ n ih => rw [Function.iterate_succ_apply, ih, mul_dbl_right]; rfl

theorem dbl_shiftLeft_one {k : Nat} (hk : k < 127) :
    dbl (1#128 <<< k) = 1#128 <<< (k + 1) := by
  have hmsb : (1#128 <<< k).msb = false := by
    rw [BitVec.msb_eq_getLsbD_last, BitVec.getLsbD_shiftLeft]
    simp
    omega
  rw [dbl, hmsb, ← BitVec.shiftLeft_add]
  simp

theorem getLsbD_mulBits_shiftLeft_one (n k i : Nat) (hnk : n + k ≤ 128) (a : BitVec 128) :
    (mulBits n a (1#128 <<< k)).getLsbD i =
      (decide (k ≤ i) && decide (i < n + k) && a.getLsbD (i - k)) := by
  induction n generalizing a k with
  | zero => simp [mulBits]
  | succ n ih =>
      rw [mulBits, BitVec.getLsbD_xor]
      have hhead : (if a.getLsbD 0 then 1#128 <<< k else 0#128).getLsbD i =
          (decide (i = k) && a.getLsbD 0) := by
        cases a.getLsbD 0
        · simp
        · simp only [if_true, BitVec.getLsbD_shiftLeft, BitVec.getLsbD_one, Bool.and_true]
          by_cases hik : i = k
          · subst hik
            simp
            omega
          · have : ¬ (i < 128 ∧ k ≤ i ∧ i - k = 0) := by omega
            simp [hik]
            omega
      rw [hhead]
      rcases Nat.eq_zero_or_pos n with rfl | hn
      · by_cases hik : i = k
        · subst hik
          simp [mulBits]
        · have : ¬ (k ≤ i ∧ i < 0 + 1 + k) := by omega
          simp [mulBits, hik]
          omega
      · rw [dbl_shiftLeft_one (by omega), ih (k + 1) (by omega), BitVec.getLsbD_ushiftRight]
        by_cases hik : i = k
        · subst hik
          simp
        · by_cases hlt : k < i
          · have hsub : 1 + (i - (k + 1)) = i - k := by omega
            have hcond : decide (i < n + (k + 1)) = decide (i < n + 1 + k) := by
              congr 1
              apply propext
              omega
            have hle : k + 1 ≤ i := hlt
            simp [hik, hle, hlt.le, hsub, hcond]
          · have hle : ¬ k + 1 ≤ i := by omega
            have hle' : ¬ k ≤ i := by omega
            simp [hik, hle, hle']

@[simp] theorem mul_one (b : BitVec 128) : mul b 1#128 = b := by
  apply BitVec.eq_of_getLsbD_eq
  intro i hi
  have h := getLsbD_mulBits_shiftLeft_one 128 0 i (by omega) b
  simpa [mul, hi] using h

theorem dbl_iterate_128 (b : BitVec 128) :
    dbl^[128] b = mul 0x87#128 b := by
  have hone : dbl^[128] 1#128 = dbl^[7] 1#128 ^^^ dbl^[2] 1#128 ^^^ dbl^[1] 1#128 ^^^ 1#128 := by
    decide +kernel
  have hcoeff : mul 0x87#128 b = dbl^[7] b ^^^ dbl^[2] b ^^^ dbl^[1] b ^^^ b := by
    simp [mul, mulBits]
    ac_rfl
  calc
    dbl^[128] b = dbl^[128] (mul b 1#128) := by rw [mul_one]
    _ = mul b (dbl^[128] 1#128) := (mul_dbl_iterate_right _ _ _).symm
    _ = dbl^[7] b ^^^ dbl^[2] b ^^^ dbl^[1] b ^^^ b := by
      rw [hone]
      simp only [mul_xor_right, mul_dbl_iterate_right, mul_one]
    _ = mul 0x87#128 b := hcoeff.symm

/-! ## The field product -/

theorem mulBits_succ_last (n : Nat) (a b : BitVec 128) :
    mulBits (n + 1) a b = mulBits n a b ^^^ (if a.getLsbD n then dbl^[n] b else 0#128) := by
  induction n generalizing a b with
  | zero => simp [mulBits]
  | succ n ih =>
      have hhead : mulBits (n + 1) a b =
          (if a.getLsbD 0 then b else 0#128) ^^^ mulBits n (a >>> 1) (dbl b) := rfl
      rw [mulBits, ih, ← BitVec.xor_assoc, hhead, BitVec.getLsbD_ushiftRight,
        Nat.add_comm 1 n, Function.iterate_succ_apply]

theorem mulBits_congr (n : Nat) {a a' : BitVec 128} (b : BitVec 128)
    (h : ∀ i < n, a.getLsbD i = a'.getLsbD i) : mulBits n a b = mulBits n a' b := by
  induction n with
  | zero => rfl
  | succ n ih =>
      rw [mulBits_succ_last, mulBits_succ_last, ih (fun i hi => h i (by omega)),
        h n (by omega)]

theorem mul_shiftLeft (a b : BitVec 128) : mul (a <<< 1) b = mulBits 127 a (dbl b) := by
  have hlow : (a <<< 1).getLsbD 0 = false := by simp
  rw [mul, mulBits, hlow]
  simp only [Bool.false_eq_true, if_false, BitVec.zero_xor]
  apply mulBits_congr
  intro i hi
  rw [BitVec.getLsbD_ushiftRight, BitVec.getLsbD_shiftLeft]
  simp
  omega

theorem mul_dbl_left (a b : BitVec 128) : mul (dbl a) b = dbl (mul a b) := by
  have hlast : mul a (dbl b) =
      mulBits 127 a (dbl b) ^^^ (if a.msb then dbl^[127] (dbl b) else 0#128) := by
    rw [mul, mulBits_succ_last, BitVec.msb_eq_getLsbD_last]
  rw [← mul_dbl_right, hlast, dbl, mul_xor_left, mul_shiftLeft, ← Function.iterate_succ_apply,
    dbl_iterate_128]
  cases a.msb with
  | false => simp [mul]
  | true => simp

theorem mul_assoc (a b c : BitVec 128) : mul (mul a b) c = mul a (mul b c) := by
  suffices h : ∀ n a b, mul (mulBits n a b) c = mulBits n a (mul b c) from h 128 a b
  intro n
  induction n with
  | zero =>
      intro a b
      simp [mulBits, mul]
  | succ n ih =>
      intro a b
      rw [mulBits, mulBits, mul_xor_left, ih, mul_dbl_left]
      cases a.getLsbD 0 with
      | false => simp [mul]
      | true => simp

theorem dbl_iterate_eq_mul (n : Nat) (b : BitVec 128) : dbl^[n] b = mul (dbl^[n] 1#128) b := by
  induction n with
  | zero => simp
  | succ n ih =>
      rw [Function.iterate_succ_apply', Function.iterate_succ_apply', ih, mul_dbl_left]

/-! ## Powers of `x` -/

/-- `x` to the power whose top bits are the exponent of `acc` and whose low `n`
bits are those of `e`, by squaring. -/
def powLoop : Nat → Nat → BitVec 128 → BitVec 128
  | 0, _, acc => acc
  | n + 1, e, acc =>
      powLoop n e (if e.testBit n then dbl (mul acc acc) else mul acc acc)

theorem powLoop_eq (n e k : Nat) (he : e / 2 ^ n = k) :
    powLoop n e (dbl^[k] 1#128) = dbl^[e] 1#128 := by
  induction n generalizing k with
  | zero => simp [powLoop, ← he]
  | succ n ih =>
      have hsquare : mul (dbl^[k] 1#128) (dbl^[k] 1#128) = dbl^[2 * k] 1#128 := by
        rw [← dbl_iterate_eq_mul, ← Function.iterate_add_apply, Nat.two_mul]
      have hdiv : e / 2 ^ n / 2 = k := by
        rw [Nat.div_div_eq_div_mul, ← Nat.pow_succ, he]
      have hbit : e.testBit n = decide (e / 2 ^ n % 2 = 1) := Nat.testBit_eq_decide_div_mod_eq
      rw [powLoop, hsquare, hbit]
      by_cases hodd : e / 2 ^ n % 2 = 1
      · simp only [hodd, decide_true, if_true]
        rw [← Function.iterate_succ_apply' dbl]
        exact ih (2 * k + 1) (by omega)
      · simp only [hodd, decide_false, Bool.false_eq_true, if_false]
        exact ih (2 * k) (by omega)

theorem dbl_iterate_one_eq (e : Nat) (he : e < 2 ^ 128) :
    dbl^[e] 1#128 = powLoop 128 e 1#128 :=
  (powLoop_eq 128 e 0 (Nat.div_eq_of_lt he)).symm

/-! ### Evaluation

The kernel computes faster with numbers than with words.
-/

def dblNat (b : Nat) : Nat := ((b <<< 1) % 2 ^ 128) ^^^ ((b >>> 127) * 0x87)

def mulNat : Nat → Nat → Nat → Nat
  | 0, _, _ => 0
  | n + 1, a, b => (a % 2 * b) ^^^ mulNat n (a >>> 1) (dblNat b)

def powNat : Nat → Nat → Nat → Nat
  | 0, _, acc => acc
  | n + 1, e, acc =>
      powNat n e (if e.testBit n then dblNat (mulNat 128 acc acc) else mulNat 128 acc acc)

theorem toNat_dbl (b : BitVec 128) : (dbl b).toNat = dblNat b.toNat := by
  have hcarry : (if b.msb then 0x87#128 else 0#128).toNat = (b.toNat >>> 127) * 0x87 := by
    have hlt := b.isLt
    rw [BitVec.msb_eq_decide, Nat.shiftRight_eq_div_pow]
    by_cases hmsb : 2 ^ (128 - 1) ≤ b.toNat
    · have hdiv : b.toNat / 2 ^ 127 = 1 := by omega
      simp only [hmsb, decide_true, if_true, hdiv]
      rfl
    · have hdiv : b.toNat / 2 ^ 127 = 0 := by omega
      simp only [hmsb, decide_false, Bool.false_eq_true, if_false, hdiv]
      rfl
  rw [dbl, dblNat, BitVec.toNat_xor, BitVec.toNat_shiftLeft, hcarry]

theorem toNat_mulBits (n : Nat) (a b : BitVec 128) :
    (mulBits n a b).toNat = mulNat n a.toNat b.toNat := by
  induction n generalizing a b with
  | zero => rfl
  | succ n ih =>
      have hbit : (if a.getLsbD 0 then b else 0#128).toNat = a.toNat % 2 * b.toNat := by
        have hmod : a.toNat % 2 = if a.getLsbD 0 then 1 else 0 := by
          rw [BitVec.getLsbD, Nat.testBit_zero]
          split <;> simp_all
        rw [hmod]
        split <;> simp
      rw [mulBits, mulNat, BitVec.toNat_xor, ih, BitVec.toNat_ushiftRight, toNat_dbl, hbit]

theorem toNat_powLoop (n e : Nat) (acc : BitVec 128) :
    (powLoop n e acc).toNat = powNat n e acc.toNat := by
  induction n generalizing acc with
  | zero => rfl
  | succ n ih =>
      have hsquare : (mul acc acc).toNat = mulNat 128 acc.toNat acc.toNat :=
        toNat_mulBits 128 acc acc
      rw [powLoop, powNat, ih]
      cases e.testBit n with
      | false => simp only [Bool.false_eq_true, if_false, hsquare]
      | true => simp only [if_true, toNat_dbl, hsquare]

/-! ### The order -/

def order : Nat := 2 ^ 128 - 1

theorem dbl_iterate_order (b : BitVec 128) : dbl^[order] b = b := by
  have hone : dbl^[order] 1#128 = 1#128 := by
    apply BitVec.eq_of_toNat_eq
    rw [dbl_iterate_one_eq order (by decide), toNat_powLoop]
    decide +kernel
  rw [dbl_iterate_eq_mul, hone, one_mul]

def logThree : Nat := 338793687469689340204974836150077311399

theorem dbl_iterate_logThree (b : BitVec 128) : dbl^[logThree] b = dbl b ^^^ b := by
  have hone : dbl^[logThree] 1#128 = dbl 1#128 ^^^ 1#128 := by
    apply BitVec.eq_of_toNat_eq
    rw [dbl_iterate_one_eq logThree (by decide), toNat_powLoop]
    decide +kernel
  rw [dbl_iterate_eq_mul, hone, mul_xor_left, mul_dbl_left, one_mul]

/-! ## The length of the cycles -/

theorem prime_6700417 : Nat.Prime 6700417 := by norm_num

theorem prime_67280421310721 : Nat.Prime 67280421310721 := by
  have hpred : 67280421310721 - 1 = 2 ^ 8 * 5 * 47 * 373 * 2998279 := by norm_num
  apply lucas_primality _ (3 : ZMod 67280421310721) (by reduce_mod_char)
  intro q hq hdvd
  rw [hpred] at hdvd
  have hcases : q = 2 ∨ q = 5 ∨ q = 47 ∨ q = 373 ∨ q = 2998279 := by
    simp only [hq.dvd_mul] at hdvd
    rcases hdvd with (((h | h) | h) | h) | h
    · exact .inl ((Nat.prime_dvd_prime_iff_eq hq (by norm_num)).mp (hq.dvd_of_dvd_pow h))
    · exact .inr (.inl ((Nat.prime_dvd_prime_iff_eq hq (by norm_num)).mp h))
    · exact .inr (.inr (.inl ((Nat.prime_dvd_prime_iff_eq hq (by norm_num)).mp h)))
    · exact .inr (.inr (.inr (.inl ((Nat.prime_dvd_prime_iff_eq hq (by norm_num)).mp h))))
    · exact .inr (.inr (.inr (.inr ((Nat.prime_dvd_prime_iff_eq hq (by norm_num)).mp h))))
  rcases hcases with rfl | rfl | rfl | rfl | rfl <;>
    · norm_num
      reduce_mod_char
      decide +kernel

theorem dvd_minimalPeriod {p : Nat} (hp : p.Prime) (hdvd : p ∣ order)
    (inverse : BitVec 128)
    (hinverse : mul inverse (dbl^[order / p] 1#128 ^^^ 1#128) = 1#128)
    {b : BitVec 128} (hb : b ≠ 0#128) : p ∣ Function.minimalPeriod dbl b := by
  by_contra hnot
  have hperiod : Function.minimalPeriod dbl b ∣ order :=
    Function.IsPeriodicPt.minimalPeriod_dvd (dbl_iterate_order b)
  have hcoprime : Nat.Coprime (Function.minimalPeriod dbl b) p :=
    ((hp.coprime_iff_not_dvd).mpr hnot).symm
  have hsplit : order = p * (order / p) := (Nat.mul_div_cancel' hdvd).symm
  have hquot : Function.minimalPeriod dbl b ∣ order / p :=
    hcoprime.dvd_of_dvd_mul_left (hsplit ▸ hperiod)
  have hfix : dbl^[order / p] b = b :=
    (Function.isPeriodicPt_iff_minimalPeriod_dvd.mpr hquot)
  have hzero : mul (dbl^[order / p] 1#128 ^^^ 1#128) b = 0#128 := by
    rw [mul_xor_left, ← dbl_iterate_eq_mul, hfix, one_mul, BitVec.xor_self]
  apply hb
  calc
    b = mul (mul inverse (dbl^[order / p] 1#128 ^^^ 1#128)) b := by rw [hinverse, one_mul]
    _ = mul inverse 0#128 := by rw [mul_assoc, hzero]
    _ = 0#128 := mulBits_zero_right 128 inverse

/-- A divisor of every cycle length, large enough to tell apart all exponents met
in practice. -/
def cycleDivisor : Nat := 6700417 * 67280421310721

theorem cycleDivisor_dvd {b : BitVec 128} (hb : b ≠ 0#128) :
    cycleDivisor ∣ Function.minimalPeriod dbl b := by
  have hsmall : 6700417 ∣ Function.minimalPeriod dbl b := by
    apply dvd_minimalPeriod prime_6700417 (by decide) 0xfb9043b5b964d0d44ce89147bf2b6a67#128 _ hb
    apply BitVec.eq_of_toNat_eq
    rw [dbl_iterate_one_eq _ (by decide), mul, toNat_mulBits, BitVec.toNat_xor, toNat_powLoop]
    decide +kernel
  have hlarge : 67280421310721 ∣ Function.minimalPeriod dbl b := by
    apply dvd_minimalPeriod prime_67280421310721 (by decide)
      0x160e54d7fb0564aeac2fd1f161f6cd1#128 _ hb
    apply BitVec.eq_of_toNat_eq
    rw [dbl_iterate_one_eq _ (by decide), mul, toNat_mulBits, BitVec.toNat_xor, toNat_powLoop]
    decide +kernel
  apply Nat.Coprime.mul_dvd_of_dvd_of_dvd _ hsmall hlarge
  decide

theorem dbl_iterate_inj {b : BitVec 128} (hb : b ≠ 0#128) {e e' : Nat}
    (h : dbl^[e] b = dbl^[e'] b) : e % cycleDivisor = e' % cycleDivisor := by
  have hpos : 0 < Function.minimalPeriod dbl b :=
    Function.IsPeriodicPt.minimalPeriod_pos (by decide) (dbl_iterate_order b)
  rw [← Function.iterate_mod_minimalPeriod_eq (n := e),
    ← Function.iterate_mod_minimalPeriod_eq (n := e'),
    Function.iterate_eq_iterate_iff_of_lt_minimalPeriod (Nat.mod_lt _ hpos)
      (Nat.mod_lt _ hpos)] at h
  have hdvd := cycleDivisor_dvd hb
  exact Nat.ModEq.of_dvd hdvd h

end FancyMumble.Lib.Gf128
