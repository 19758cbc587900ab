import FancyMumble.Lib.Separation
import FancyMumble.Transport.Ocb2.Transcript
import Mathlib.Tactic.DeriveFintype

/-!
# Free answers of the cipher

Who sees one sealed message knows little of the cipher. What it leaves open are parameters:
the first offset, the plain block that a changed cipher block opens to, a pad, and a tag.
The points at which the cipher is asked depend on them, and unless two of these points are
the same for all parameters, a cipher with the answers wanted exists.
-/

namespace FancyMumble.Transport.Ocb2

open Lib Lib.Separation
open Block (s2)

/-! ## Exponents of offsets -/

def maxExponent : Nat := 2 ^ 61

theorem mod_ne_of_small {e e' : Nat} (he : e < maxExponent) (he' : e' < maxExponent)
    (h : e ≠ e') : e % Gf128.cycleDivisor ≠ e' % Gf128.cycleDivisor := by
  unfold maxExponent at he he'
  unfold Gf128.cycleDivisor
  omega

theorem logThree_add_mod_ne {e e' : Nat} (he : e < maxExponent) (he' : e' < maxExponent) :
    (Gf128.logThree + e) % Gf128.cycleDivisor ≠ e' % Gf128.cycleDivisor := by
  unfold maxExponent at he he'
  unfold Gf128.cycleDivisor Gf128.logThree
  omega

/-! ## Parameters -/

/-- What a sealed message does not determine, for opening a message of `n` full blocks. -/
inductive Param (n : Nat) where
  | offset
  | plain (j : Fin n)
  | pad
  | tag
deriving DecidableEq, Fintype

instance (n : Nat) : Nonempty (Param n) := ⟨.offset⟩

abbrev Value (n : Nat) := (Param n → Block) → Block

variable {n : Nat} {p : Param n} {g g' : Block → Block} {F G : Value n}

def DependsOn (p : Param n) (g : Block → Block) (F : Value n) : Prop :=
  ∀ v a, F (Function.update v p a) = g a ^^^ F (Function.update v p Block.zero)

def Ignores (p : Param n) (F : Value n) : Prop := ∀ v a, F (Function.update v p a) = F v

theorem ignores_const (p : Param n) (block : Block) : Ignores p fun _ => block := fun _ _ => rfl

theorem ignores_of_ne {q : Param n} (h : q ≠ p) : Ignores p fun v => v q :=
  fun _ _ => Function.update_of_ne h _ _

theorem Ignores.xor (hF : Ignores p F) (hG : Ignores p G) : Ignores p fun v => F v ^^^ G v := by
  intro v a
  dsimp only
  rw [hF, hG]

theorem Ignores.iterate_s2 (hF : Ignores p F) (e : Nat) : Ignores p fun v => s2^[e] (F v) := by
  intro v a
  dsimp only
  rw [hF]

theorem dependsOn_self (p : Param n) : DependsOn p id fun v => v p := by
  intro v a
  simp

theorem DependsOn.iterate_s2 (hF : DependsOn p g F) (e : Nat) :
    DependsOn p (fun a => s2^[e] (g a)) fun v => s2^[e] (F v) := by
  intro v a
  dsimp only
  rw [hF, Block.iterate_s2_xor]

theorem DependsOn.xor_ignores (hF : DependsOn p g F) (hG : Ignores p G) :
    DependsOn p g fun v => F v ^^^ G v := by
  intro v a
  dsimp only
  rw [hF, hG, hG, Block.xor_assoc]

theorem DependsOn.ignores_xor (hF : DependsOn p g F) (hG : Ignores p G) :
    DependsOn p g fun v => G v ^^^ F v := by
  intro v a
  dsimp only
  rw [hF, hG, hG, Block.xor_left_comm]

theorem separated_of_dependsOn (hF : DependsOn p g F) (hG : DependsOn p g' G)
    (hinj : Function.Injective fun a => g a ^^^ g' a) : Separated F G := by
  refine ⟨p, fun v a a' ha ha' => hinj ?_⟩
  rw [hF, hG, Block.xor_eq_xor_iff] at ha ha'
  exact ha.trans ha'.symm

theorem separated_of_ignores (hF : DependsOn p g F) (hG : Ignores p G)
    (hinj : Function.Injective g) : Separated F G := by
  refine ⟨p, fun v a a' ha ha' => hinj ?_⟩
  rw [hF, hG, Block.xor_eq_iff] at ha ha'
  exact ha.trans ha'.symm

/-! ### Offsets -/

def offsetForm (e : Nat) (block : Block) : Value n := fun v => s2^[e] (v .offset) ^^^ block

theorem offsetForm_apply (e : Nat) (block : Block) (v : Param n → Block) :
    offsetForm e block v = s2^[e] (v .offset) ^^^ block := rfl

theorem dependsOn_offsetForm (e : Nat) (block : Block) :
    DependsOn .offset (s2^[e]) (offsetForm (n := n) e block) :=
  ((dependsOn_self .offset).iterate_s2 e).xor_ignores (ignores_const _ block)

theorem ignores_offsetForm (hp : p ≠ .offset) (e : Nat) (block : Block) :
    Ignores p (offsetForm e block) :=
  ((ignores_of_ne hp.symm).iterate_s2 e).xor (ignores_const _ block)

theorem separated_of_exponents {e e' : Nat} (hF : DependsOn .offset (s2^[e]) F)
    (hG : DependsOn .offset (s2^[e']) G)
    (h : e % Gf128.cycleDivisor ≠ e' % Gf128.cycleDivisor) : Separated F G :=
  separated_of_dependsOn hF hG (Block.iterate_s2_xor_injective h)

theorem separated_of_offset {e : Nat} (hF : DependsOn .offset (s2^[e]) F)
    (hG : Ignores .offset G) : Separated F G :=
  separated_of_ignores hF hG (Block.s2_injective.iterate e)

theorem separated_offsetForm {block block' : Block} (h : block ≠ block') (e : Nat) :
    Separated (offsetForm (n := n) e block) (offsetForm e block') := by
  refine separated_of_ne fun v heq => h ?_
  simpa only [offsetForm, Block.xor_eq_iff, Block.xor_xor_self_right, Block.xor_comm _ block',
    Block.xor_comm _ block] using heq

/-! ### Opened blocks -/

theorem xorAll_set (blocks : List Block) (i : Nat) (hi : i < blocks.length) (a : Block) :
    xorAll (blocks.set i a) = a ^^^ xorAll (blocks.set i Block.zero) := by
  induction blocks generalizing i with
  | nil => cases hi
  | cons block blocks ih =>
      cases i with
      | zero => simp
      | succ i =>
          rw [List.set_cons_succ, List.set_cons_succ, xorAll_cons, xorAll_cons,
            ih i (Nat.lt_of_succ_lt_succ hi), Block.xor_left_comm]

/-- The blocks to which cipher blocks open: a parameter for each changed one, and known blocks
for the others. -/
def openedBlocks (known : Fin n → Block) (changed : Finset (Fin n)) (v : Param n → Block) :
    List Block :=
  List.ofFn fun j => if j ∈ changed then v (.plain j) else known j

variable {known : Fin n → Block} {changed : Finset (Fin n)}

@[simp] theorem length_openedBlocks (v : Param n → Block) :
    (openedBlocks known changed v).length = n := List.length_ofFn

theorem openedBlocks_update_plain {j : Fin n} (hj : j ∈ changed) (v : Param n → Block)
    (a : Block) : openedBlocks known changed (Function.update v (.plain j) a) =
      (openedBlocks known changed v).set j a := by
  apply List.ext_getElem
  · simp
  · intro i hi hi'
    simp only [openedBlocks, List.getElem_ofFn, List.getElem_set]
    by_cases hij : j.val = i
    · subst hij
      simp [hj]
    · have hne : (Param.plain ⟨i, by simpa using hi⟩ : Param n) ≠ .plain j := by
        intro heq
        exact hij (congrArg Fin.val (Param.plain.inj heq)).symm
      simp only [Function.update_of_ne hne, if_neg hij]

theorem dependsOn_xorAll_openedBlocks {j : Fin n} (hj : j ∈ changed) :
    DependsOn (.plain j) id fun v => xorAll (openedBlocks known changed v) := by
  intro v a
  dsimp only
  rw [openedBlocks_update_plain hj, openedBlocks_update_plain hj]
  exact xorAll_set _ _ (by simp) a

theorem ignores_xorAll_openedBlocks (hp : ∀ j ∈ changed, Param.plain j ≠ p) :
    Ignores p fun v => xorAll (openedBlocks known changed v) := by
  intro v a
  have hsame : openedBlocks known changed (Function.update v p a) =
      openedBlocks known changed v := by
    unfold openedBlocks
    congr 1
    funext j
    split
    next hj => rw [Function.update_of_ne (hp j hj)]
    next => rfl
  dsimp only
  rw [hsame]

/-! ## Entries -/

abbrev Entry (n : Nat) := Value n × Value n

def SeparatedEntries (e e' : Entry n) : Prop := Separated e.1 e'.1 ∧ Separated e.2 e'.2

def sealEntries (n : Nat) (iv : Block) (plainBlocks : List Block) (shown : Nat → Block)
    (remaining : Nat) (pad checksum tag : Block) : List (Entry n) :=
  (fun _ => iv, offsetForm 0 Block.zero) ::
    (offsetForm (plainBlocks.length + 1) (lengthBlock remaining), fun _ => pad) ::
      (offsetForm (Gf128.logThree + (plainBlocks.length + 1)) checksum, fun _ => tag) ::
        (List.finRange plainBlocks.length).map fun i : Fin plainBlocks.length =>
          (offsetForm (i.val + 1) (plainBlocks.get i), offsetForm (i.val + 1) (shown i))

def openedPoint (j : Fin n) : Value n := fun v => s2^[j.val + 1] (v .offset) ^^^ v (.plain j)

def openEntries (changed : Finset (Fin n)) (cipherBlocks : Fin n → Block) : List (Entry n) :=
  ((List.finRange n).filter (· ∈ changed)).map fun j : Fin n =>
    (openedPoint j, offsetForm (j.val + 1) (cipherBlocks j))

theorem dependsOn_offset_openedPoint (j : Fin n) :
    DependsOn .offset (s2^[j.val + 1]) (openedPoint j) :=
  ((dependsOn_self .offset).iterate_s2 _).xor_ignores (ignores_of_ne (by rintro ⟨⟩))

theorem dependsOn_plain_openedPoint (j : Fin n) : DependsOn (.plain j) id (openedPoint j) :=
  (dependsOn_self (.plain j)).ignores_xor
    ((ignores_of_ne (q := .offset) (by rintro ⟨⟩)).iterate_s2 _)

theorem ignores_openedPoint {j : Fin n} (hp : p ≠ .offset) (hj : p ≠ .plain j) :
    Ignores p (openedPoint j) :=
  ((ignores_of_ne hp.symm).iterate_s2 _).xor (ignores_of_ne hj.symm)

section Entries

variable {iv pad checksum tag : Block} {plainBlocks : List Block} {shown : Nat → Block}
  {remaining : Nat} {cipherBlocks : Fin n → Block} {entry : Entry n}

theorem ignores_of_mem_sealEntries (hp : p ≠ .offset)
    (h : entry ∈ sealEntries n iv plainBlocks shown remaining pad checksum tag) :
    Ignores p entry.1 ∧ Ignores p entry.2 := by
  simp only [sealEntries, List.mem_cons, List.mem_map] at h
  rcases h with rfl | rfl | rfl | ⟨i, -, rfl⟩
  · exact ⟨ignores_const _ _, ignores_offsetForm hp _ _⟩
  · exact ⟨ignores_offsetForm hp _ _, ignores_const _ _⟩
  · exact ⟨ignores_offsetForm hp _ _, ignores_const _ _⟩
  · exact ⟨ignores_offsetForm hp _ _, ignores_offsetForm hp _ _⟩

theorem separated_of_forall_sealEntries (hiv : Separated F fun _ => iv)
    (hpad : Separated F (offsetForm (plainBlocks.length + 1) (lengthBlock remaining)))
    (htag : Separated F (offsetForm (Gf128.logThree + (plainBlocks.length + 1)) checksum))
    (hblocks : ∀ i : Fin plainBlocks.length,
      Separated F (offsetForm (i.val + 1) (plainBlocks.get i)))
    (h : entry ∈ sealEntries n iv plainBlocks shown remaining pad checksum tag) :
    Separated F entry.1 := by
  simp only [sealEntries, List.mem_cons, List.mem_map] at h
  rcases h with rfl | rfl | rfl | ⟨i, -, rfl⟩
  · exact hiv
  · exact hpad
  · exact htag
  · exact hblocks i

theorem pairwise_sealEntries (hlength : plainBlocks.length + 1 < maxExponent)
    (hne : pad ≠ tag) :
    (sealEntries n iv plainBlocks shown remaining pad checksum tag).Pairwise
      SeparatedEntries := by
  have hblock (e : Nat) (block : Block) := dependsOn_offsetForm (n := n) e block
  have hconst (block : Block) := ignores_const (n := n) .offset block
  have hsmall (i : Fin plainBlocks.length) : i.val + 1 < maxExponent := by omega
  unfold sealEntries
  rw [List.pairwise_cons, List.pairwise_cons, List.pairwise_cons]
  refine ⟨?_, ?_, ?_, ?_⟩
  · -- the first offset
    intro entry h
    simp only [List.mem_cons, List.mem_map] at h
    rcases h with rfl | rfl | ⟨i, -, rfl⟩
    · exact ⟨(separated_of_offset (hblock _ _) (hconst _)).symm,
        separated_of_offset (hblock _ _) (hconst _)⟩
    · exact ⟨(separated_of_offset (hblock _ _) (hconst _)).symm,
        separated_of_offset (hblock _ _) (hconst _)⟩
    · refine ⟨(separated_of_offset (hblock _ _) (hconst _)).symm,
        separated_of_exponents (hblock _ _) (hblock _ _) ?_⟩
      exact mod_ne_of_small (by decide) (hsmall i) (Nat.succ_ne_zero _).symm
  · -- the pad
    intro entry h
    simp only [List.mem_cons, List.mem_map] at h
    rcases h with rfl | ⟨i, -, rfl⟩
    · exact ⟨(separated_of_exponents (hblock _ _) (hblock _ _)
        (logThree_add_mod_ne hlength hlength)).symm, separated_of_ne fun _ => hne⟩
    · refine ⟨separated_of_exponents (hblock _ _) (hblock _ _) ?_,
        (separated_of_offset (hblock _ _) (hconst _)).symm⟩
      exact mod_ne_of_small hlength (hsmall i) (by omega)
  · -- the tag
    intro entry h
    simp only [List.mem_map] at h
    obtain ⟨i, -, rfl⟩ := h
    exact ⟨separated_of_exponents (hblock _ _) (hblock _ _)
      (logThree_add_mod_ne hlength (hsmall i)),
      (separated_of_offset (hblock _ _) (hconst _)).symm⟩
  · -- the full blocks
    rw [List.pairwise_map]
    refine (List.nodup_finRange _).imp fun {i j} hij => ?_
    have hexponents := mod_ne_of_small (hsmall i) (hsmall j) (by
      intro heq
      exact hij (Fin.ext (Nat.succ.inj heq)))
    exact ⟨separated_of_exponents (hblock _ _) (hblock _ _) hexponents,
      separated_of_exponents (hblock _ _) (hblock _ _) hexponents⟩

theorem mem_openEntries :
    entry ∈ openEntries changed cipherBlocks ↔
      ∃ j ∈ changed, (openedPoint j, offsetForm (j.val + 1) (cipherBlocks j)) = entry := by
  simp [openEntries]

theorem pairwise_openEntries (hn : n + 1 < maxExponent) :
    (openEntries changed cipherBlocks).Pairwise SeparatedEntries := by
  unfold openEntries
  rw [List.pairwise_map]
  refine ((List.nodup_finRange n).filter _).imp fun {i j} hij => ?_
  have hexponents : (i.val + 1) % Gf128.cycleDivisor ≠ (j.val + 1) % Gf128.cycleDivisor := by
    refine mod_ne_of_small (by omega) (by omega) fun heq => ?_
    exact hij (Fin.ext (Nat.succ.inj heq))
  exact ⟨separated_of_exponents (dependsOn_offset_openedPoint i)
      (dependsOn_offset_openedPoint j) hexponents,
    separated_of_exponents (dependsOn_offsetForm _ _) (dependsOn_offsetForm _ _) hexponents⟩

theorem separated_open_seal (hn : n + 1 < maxExponent)
    (hlength : plainBlocks.length + 1 < maxExponent)
    (hchanged : ∀ j ∈ changed, j.val < plainBlocks.length → cipherBlocks j ≠ shown j)
    {entry' : Entry n} (h : entry ∈ openEntries changed cipherBlocks)
    (h' : entry' ∈ sealEntries n iv plainBlocks shown remaining pad checksum tag) :
    SeparatedEntries entry entry' := by
  obtain ⟨j, hj, rfl⟩ := mem_openEntries.mp h
  refine ⟨separated_of_ignores (dependsOn_plain_openedPoint j)
    (ignores_of_mem_sealEntries (by rintro ⟨⟩) h').1 Function.injective_id, ?_⟩
  have houtput := dependsOn_offsetForm (n := n) (j.val + 1) (cipherBlocks j)
  simp only [sealEntries, List.mem_cons, List.mem_map] at h'
  rcases h' with rfl | rfl | rfl | ⟨i, -, rfl⟩
  · exact separated_of_exponents houtput (dependsOn_offsetForm _ _)
      (mod_ne_of_small (by omega) (by decide) (Nat.succ_ne_zero _))
  · exact separated_of_offset houtput (ignores_const _ _)
  · exact separated_of_offset houtput (ignores_const _ _)
  · by_cases hij : i.val = j.val
    · have hne := hchanged j hj (hij ▸ i.isLt)
      dsimp only
      rw [hij]
      exact separated_offsetForm hne _
    · exact separated_of_exponents houtput (dependsOn_offsetForm _ _)
        (mod_ne_of_small (by omega) (by omega) (by omega))

theorem separated_padEntry {remaining' : Nat} (hn : n + 1 < maxExponent)
    (hlength : plainBlocks.length + 1 < maxExponent)
    (hpad : n = plainBlocks.length → lengthBlock remaining' ≠ lengthBlock remaining)
    (hblocks : ∀ hi : n < plainBlocks.length, lengthBlock remaining' ≠ plainBlocks[n])
    (h : entry ∈ openEntries changed cipherBlocks ++
      sealEntries n iv plainBlocks shown remaining pad checksum tag) :
    SeparatedEntries (offsetForm (n + 1) (lengthBlock remaining'), fun v => v .pad) entry := by
  have hform := dependsOn_offsetForm (n := n) (n + 1) (lengthBlock remaining')
  rcases List.mem_append.mp h with hopen | hseal
  · obtain ⟨j, -, rfl⟩ := mem_openEntries.mp hopen
    refine ⟨(separated_of_ignores (dependsOn_plain_openedPoint j)
        (ignores_offsetForm (by rintro ⟨⟩) _ _) Function.injective_id).symm,
      separated_of_ignores (dependsOn_self .pad) (ignores_offsetForm (by rintro ⟨⟩) _ _)
        Function.injective_id⟩
  · refine ⟨separated_of_forall_sealEntries ?_ ?_ ?_ ?_ hseal,
      separated_of_ignores (dependsOn_self .pad)
        (ignores_of_mem_sealEntries (by rintro ⟨⟩) hseal).2 Function.injective_id⟩
    · exact separated_of_offset hform (ignores_const _ _)
    · by_cases heq : n = plainBlocks.length
      · rw [← heq]
        exact separated_offsetForm (hpad heq) _
      · exact separated_of_exponents hform (dependsOn_offsetForm _ _)
          (mod_ne_of_small hn hlength (by omega))
    · exact (separated_of_exponents (dependsOn_offsetForm _ _) hform
        (logThree_add_mod_ne hlength hn)).symm
    · intro i
      by_cases heq : i.val = n
      · subst heq
        exact separated_offsetForm (hblocks i.isLt) _
      · exact separated_of_exponents hform (dependsOn_offsetForm _ _)
          (mod_ne_of_small hn (by omega) (by omega))

end Entries

/-! ## A cipher with the answers -/

def HasAnswers (cipher : Cipher) (v : Param n → Block) (entries : List (Entry n)) : Prop :=
  ∀ entry ∈ entries, cipher (entry.1 v) = entry.2 v

theorem HasAnswers.mono {cipher : Cipher} {v : Param n → Block} {entries entries' : List (Entry n)}
    (h : HasAnswers cipher v entries) (hsub : entries' ⊆ entries) : HasAnswers cipher v entries' :=
  fun entry hentry => h entry (hsub hentry)

def Avoids (byte : UInt8) (block : Block) : Prop :=
  (block.byte 0).toNat % 2 ≠ byte.toNat % 2

theorem Avoids.ne {byte : UInt8} {block : Block} (h : Avoids byte block) :
    block.byte 0 ≠ byte := by
  rintro rfl
  exact h rfl

theorem exists_injective_avoids (byte : UInt8) :
    ∃ f : Fin (2 ^ 127) → Block, Function.Injective f ∧ ∀ i, Avoids byte (f i) := by
  refine ⟨fun i => Block.ofLeNat (2 * i.val + (byte.toNat + 1) % 2), ?_, ?_⟩
  · intro i j h
    have hvalue := congrArg Block.leNat h
    dsimp only at hvalue
    rw [Block.leNat_ofLeNat, Block.leNat_ofLeNat] at hvalue
    apply Fin.ext
    omega
  · intro i
    unfold Avoids
    rw [Block.toNat_byte_zero, Block.leNat_ofLeNat]
    omega

theorem exists_cipher {entries : List (Entry n)}
    (hsep : entries.Pairwise SeparatedEntries) (hlength : entries.length ≤ 2 ^ 62)
    (byte : UInt8) (e : Nat) (block : Block) :
    ∃ v : Param n → Block, Avoids byte (v .tag) ∧
      Avoids byte (s2^[e] (v .offset) ^^^ block) ∧
      ∃ cipher : Cipher, HasAnswers cipher v entries := by
  classical
  have := Fintype.ofFinite Block
  let Good : Param n → Block → Prop
    | .tag, a => Avoids byte a
    | .offset, a => Avoids byte (s2^[e] a ^^^ block)
    | _, _ => True
  let S : Param n → Finset Block := fun p => Finset.univ.filter (Good p)
  obtain ⟨f, hf, havoids⟩ := exists_injective_avoids byte
  -- every offset is reached, so half of them avoid the byte as well
  have hshift : Function.Bijective fun a => s2^[e] a ^^^ block := by
    rw [Finite.injective_iff_bijective.symm]
    intro a b hab
    have hsame := Block.xor_eq_iff.mp hab
    rw [Block.xor_xor_self_right] at hsame
    exact Block.s2_injective.iterate e hsame
  let unshift : Block ≃ Block := Equiv.ofBijective _ hshift
  have hcard (p : Param n) : 2 ^ 127 ≤ (S p).card := by
    have hmany {g : Fin (2 ^ 127) → Block} (hg : Function.Injective g)
        (hgood : ∀ i, Good p (g i)) : 2 ^ 127 ≤ (S p).card := by
      rw [← Fintype.card_fin (2 ^ 127), ← Finset.card_univ]
      refine Finset.card_le_card_of_injOn g ?_ hg.injOn
      intro i _
      exact Finset.mem_filter.mpr ⟨Finset.mem_univ _, hgood i⟩
    cases p with
    | tag => exact hmany hf havoids
    | offset =>
        refine hmany (unshift.symm.injective.comp hf) fun i => ?_
        have hvalue : s2^[e] (unshift.symm (f i)) ^^^ block = f i :=
          unshift.apply_symm_apply (f i)
        change Avoids byte (s2^[e] (unshift.symm (f i)) ^^^ block)
        rw [hvalue]
        exact havoids i
    | plain j => exact hmany hf fun _ => trivial
    | pad => exact hmany hf fun _ => trivial
  have hroom (p : Param n) : 2 * (entries.length * entries.length) < (S p).card := by
    refine lt_of_lt_of_le ?_ (hcard p)
    have hsquare := Nat.mul_le_mul hlength hlength
    omega
  obtain ⟨v, hv, cipher, hcipher⟩ := exists_assignment_perm hsep hroom
  rw [Fintype.mem_piFinset] at hv
  exact ⟨v, (Finset.mem_filter.mp (hv .tag)).2, (Finset.mem_filter.mp (hv .offset)).2, cipher,
    hcipher⟩

end FancyMumble.Transport.Ocb2
