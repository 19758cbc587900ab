import FancyMumble.Transport.Ocb2.CryptState

/-!
# Transcripts of the cipher

Sealing and opening a message both ask the cipher about the same points: the full blocks
under their offsets, the length of the final bytes for the pad, and the checksum for the
tag. A transcript lists the answers; it determines what is sealed and which tag an opened
message must have.
-/

namespace FancyMumble.Transport.Ocb2

open Lib

/-! ## Offsets -/

namespace Block

instance : Std.Associative ((· ^^^ ·) : Block → Block → Block) := ⟨xor_assoc⟩

instance : Std.Commutative ((· ^^^ ·) : Block → Block → Block) := ⟨xor_comm⟩

theorem xor_eq_xor_iff {a b c d : Block} : a ^^^ b = c ^^^ d ↔ a ^^^ c = b ^^^ d := by
  rw [xor_eq_iff, xor_eq_iff]
  have hswap : c ^^^ d ^^^ b = b ^^^ d ^^^ c := by ac_rfl
  rw [hswap]

theorem toBitVec_iterate_s2 (e : Nat) (block : Block) :
    (s2^[e] block).toBitVec = Gf128.dbl^[e] block.toBitVec := by
  induction e with
  | zero => rfl
  | succ e ih => rw [Function.iterate_succ_apply', Function.iterate_succ_apply', toBitVec_s2, ih]

theorem iterate_s2_xor (e : Nat) (a b : Block) :
    s2^[e] (a ^^^ b) = s2^[e] a ^^^ s2^[e] b := by
  apply toBitVec_injective
  rw [toBitVec_iterate_s2, toBitVec_xor, toBitVec_xor, toBitVec_iterate_s2,
    toBitVec_iterate_s2, Gf128.dbl_iterate_xor]

theorem s3_eq_iterate (block : Block) : block.s3 = s2^[Gf128.logThree] block := by
  apply toBitVec_injective
  rw [s3_eq, toBitVec_xor, toBitVec_s2, toBitVec_iterate_s2, Gf128.dbl_iterate_logThree,
    BitVec.xor_comm]

theorem s2_injective : Function.Injective s2 := by
  intro a b h
  have hdbl := congrArg toBitVec h
  rw [toBitVec_s2, toBitVec_s2] at hdbl
  have hcycle := congrArg Gf128.dbl^[Gf128.order - 1] hdbl
  have horder : Gf128.order - 1 + 1 = Gf128.order := by decide
  rw [← Function.iterate_succ_apply, ← Function.iterate_succ_apply, Nat.succ_eq_add_one,
    horder, Gf128.dbl_iterate_order, Gf128.dbl_iterate_order] at hcycle
  exact toBitVec_injective hcycle

theorem iterate_s2_xor_injective {e e' : Nat}
    (h : e % Gf128.cycleDivisor ≠ e' % Gf128.cycleDivisor) :
    Function.Injective fun block => s2^[e] block ^^^ s2^[e'] block := by
  intro a b hab
  dsimp only at hab
  have hsame : s2^[e] (a ^^^ b) = s2^[e'] (a ^^^ b) := by
    rw [iterate_s2_xor, iterate_s2_xor]
    exact xor_eq_xor_iff.mp hab
  by_contra hne
  have hnonzero : (a ^^^ b).toBitVec ≠ 0#128 := by
    intro hzero
    rw [toBitVec_xor, BitVec.xor_eq_zero_iff] at hzero
    exact hne (toBitVec_injective hzero)
  refine h (Gf128.dbl_iterate_inj hnonzero ?_)
  rw [← toBitVec_iterate_s2, ← toBitVec_iterate_s2, hsame]

end Block

open Block (s2)

/-! ## Transcripts -/

def xorAll (blocks : List Block) : Block := blocks.foldr (· ^^^ ·) Block.zero

@[simp] theorem xorAll_nil : xorAll [] = Block.zero := rfl

@[simp] theorem xorAll_cons (block : Block) (blocks : List Block) :
    xorAll (block :: blocks) = block ^^^ xorAll blocks := rfl

/-- What the cipher answers for the full blocks of a message and for the pad of its final
bytes. -/
structure Transcript (cipher : Cipher) (delta : Block) (plainBlocks cipherBlocks : List Block)
    (remaining : Nat) (pad : Block) : Prop where
  length_eq : plainBlocks.length = cipherBlocks.length
  answers : ∀ i (hi : i < plainBlocks.length) (hi' : i < cipherBlocks.length),
    cipher (s2^[i + 1] delta ^^^ plainBlocks[i]) = s2^[i + 1] delta ^^^ cipherBlocks[i]
  finalPad : cipher (lengthBlock remaining ^^^ s2^[plainBlocks.length + 1] delta) = pad

theorem encryptBlocks_eq {cipher : Cipher} {delta checksum : Block}
    {plainBlocks cipherBlocks : List Block} (hlength : plainBlocks.length = cipherBlocks.length)
    (hanswers : ∀ i (hi : i < plainBlocks.length) (hi' : i < cipherBlocks.length),
      cipher (s2^[i + 1] delta ^^^ plainBlocks[i]) = s2^[i + 1] delta ^^^ cipherBlocks[i]) :
    encryptBlocks cipher delta checksum plainBlocks =
      (s2^[plainBlocks.length] delta, checksum ^^^ xorAll plainBlocks, cipherBlocks) := by
  induction plainBlocks generalizing delta checksum cipherBlocks with
  | nil =>
      have hempty : cipherBlocks = [] := List.length_eq_zero_iff.mp hlength.symm
      simp [encryptBlocks, hempty]
  | cons block plainBlocks ih =>
      cases cipherBlocks with
      | nil => cases hlength
      | cons cipherBlock cipherBlocks =>
          have hhead : cipher (delta.s2 ^^^ block) = delta.s2 ^^^ cipherBlock :=
            hanswers 0 (by simp) (by simp)
          have htail := @ih delta.s2 (checksum ^^^ block) cipherBlocks
            (Nat.succ.inj hlength) fun i hi hi' =>
              hanswers (i + 1) (Nat.succ_lt_succ hi) (Nat.succ_lt_succ hi')
          simp only [encryptBlocks, aesEncrypt, hhead, htail, Block.xor_xor_self_left,
            List.length_cons, xorAll_cons, Function.iterate_succ_apply, Block.xor_assoc]

theorem exists_transcript (cipher : Cipher) (delta : Block) (plainBlocks : List Block)
    (remaining : Nat) :
    ∃ cipherBlocks pad, Transcript cipher delta plainBlocks cipherBlocks remaining pad := by
  refine ⟨List.ofFn fun i : Fin plainBlocks.length =>
    s2^[i + 1] delta ^^^ cipher (s2^[i + 1] delta ^^^ plainBlocks[i]), _, ?_, ?_, rfl⟩
  · rw [List.length_ofFn]
  · intro i hi hi'
    rw [List.getElem_ofFn, Block.xor_xor_self_left]
    rfl

theorem s2_iterate (e : Nat) (block : Block) : (s2^[e] block).s2 = s2^[e + 1] block :=
  (Function.iterate_succ_apply' s2 e block).symm

theorem s3_iterate (e : Nat) (block : Block) :
    (s2^[e] block).s3 = s2^[Gf128.logThree + e] block := by
  rw [Block.s3_eq_iterate, Function.iterate_add_apply]

section Sealed

variable {cipher : Cipher} {iv : Block} {plainBlocks cipherBlocks : List Block}
  {last : List UInt8} {pad : Block}

theorem ocbEncrypt_of_transcript {plain : List UInt8}
    (hsplit : splitBlocks plain = (plainBlocks, last))
    (h : Transcript cipher (cipher iv) plainBlocks cipherBlocks last.length pad) :
    ocbEncrypt cipher plain iv =
      (joinBlocks cipherBlocks ++ (pad ^^^ pad.overlay last).bytes.take last.length,
        cipher (xorAll plainBlocks ^^^ pad.overlay last ^^^
          s2^[Gf128.logThree + (plainBlocks.length + 1)] (cipher iv))) := by
  have hpad : finalPad cipher (s2^[plainBlocks.length + 1] (cipher iv)) last.length = pad :=
    h.finalPad
  simp only [ocbEncrypt, hsplit, aesEncrypt, encryptBlocks_eq h.length_eq h.answers,
    s2_iterate, hpad, Block.zero_xor, finalTag, s3_iterate]

theorem ocbDecrypt_of_transcript {encrypted : List UInt8}
    (hsplit : splitBlocks encrypted = (cipherBlocks, last))
    (h : Transcript cipher (cipher iv) plainBlocks cipherBlocks last.length pad) :
    (ocbDecrypt cipher encrypted iv).2 =
      cipher (xorAll plainBlocks ^^^ (Block.zero.overlay last ^^^ pad) ^^^
        s2^[Gf128.logThree + (plainBlocks.length + 1)] (cipher iv)) := by
  have hpad : finalPad cipher (s2^[plainBlocks.length + 1] (cipher iv)) last.length = pad :=
    h.finalPad
  have hopen := decryptBlocks_encryptBlocks cipher (cipher iv) Block.zero plainBlocks
  rw [encryptBlocks_eq h.length_eq h.answers] at hopen
  dsimp only at hopen
  simp only [ocbDecrypt, hsplit, aesEncrypt, hopen, s2_iterate, hpad, Block.zero_xor, finalTag,
    s3_iterate]

end Sealed

end FancyMumble.Transport.Ocb2
