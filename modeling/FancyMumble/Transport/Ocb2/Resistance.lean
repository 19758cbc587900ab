import FancyMumble.Transport.Ocb2.Forgery

/-!
# Resistance to forgery

A sealed packet shows what the cipher answers for the full blocks, the first bytes of the pad
of the final bytes and three bytes of the tag. Unless the message ends with a length pad and
the shown blocks fit it, no function of the packet gives another packet that is accepted
because of that: for each one there is a cipher that seals the message into the packet at
hand and wants another tag.
-/

namespace FancyMumble.Transport.Ocb2

open Lib Lib.Separation
open Block (s2)

/-! ## What a packet shows -/

/-- The sealed blocks of a packet, the bytes of the pad under its final bytes, and a block
that begins with its tag. -/
structure Seen where
  blocks : List Block
  pad : List UInt8
  tag : Block

namespace Seen

structure Fits (seen : Seen) (blocks : List Block) (last : List UInt8) : Prop where
  length_blocks : seen.blocks.length = blocks.length
  length_pad : seen.pad.length = last.length
  length_le : last.length ≤ 16

def shown (seen : Seen) (i : Nat) : Block := seen.blocks.getD i Block.zero

def packet (seen : Seen) (iv : Block) (last : List UInt8) : List UInt8 :=
  iv.byte 0 :: seen.tag.byte 0 :: seen.tag.byte 1 :: seen.tag.byte 2 ::
    (joinBlocks seen.blocks ++ Bytes.xor seen.pad last)

/-- A pad that shows the same. If its third byte is not shown, it differs from that of a tag. -/
def padFor (seen : Seen) (tag2 : UInt8) : Block := (Block.replicate (tag2 + 1)).overlay seen.pad

/-- A block that begins with the tag and is not the pad. -/
def tagFor (seen : Seen) (tag2 : UInt8) : Block :=
  (Block.replicate ((seen.padFor tag2).byte 3 + 1)).overlay
    [seen.tag.byte 0, seen.tag.byte 1, seen.tag.byte 2]

variable {seen : Seen} {blocks : List Block} {last : List UInt8} {tag2 : UInt8}

theorem shown_eq {i : Nat} (hi : i < seen.blocks.length) : seen.shown i = seen.blocks[i] :=
  List.getD_eq_getElem _ _ hi

theorem Fits.xor_take_padFor (h : seen.Fits blocks last) (tag2 : UInt8) :
    Bytes.xor ((seen.padFor tag2).bytes.take last.length) last = Bytes.xor seen.pad last := by
  have hle : seen.pad.length ≤ 16 := h.length_pad ▸ h.length_le
  rw [padFor, ← h.length_pad, Block.take_overlay hle]

theorem Fits.padFor_byte_two (h : seen.Fits blocks last) (hshort : last.length < 3)
    (tag2 : UInt8) : (seen.padFor tag2).byte 2 = tag2 + 1 := by
  have hpad := h.length_pad
  rw [Block.byte, padFor, Block.bytes_overlay (by omega), List.getD_append_right _ _ _ _ (by omega)]
  simp only [Block.replicate, List.drop_replicate]
  exact List.getD_replicate _ (by omega)

theorem add_one_ne (byte : UInt8) : byte + 1 ≠ byte := by
  intro h
  have hvalue := congrArg UInt8.toNat h
  have hlt := byte.toNat_lt
  rw [UInt8.toNat_add, UInt8.toNat_one] at hvalue
  omega

theorem tagFor_byte (tag2 : UInt8) : (seen.tagFor tag2).byte 0 = seen.tag.byte 0 ∧
    (seen.tagFor tag2).byte 1 = seen.tag.byte 1 ∧ (seen.tagFor tag2).byte 2 = seen.tag.byte 2 :=
  ⟨rfl, rfl, rfl⟩

theorem padFor_ne_tagFor (seen : Seen) (tag2 : UInt8) : seen.padFor tag2 ≠ seen.tagFor tag2 := by
  intro h
  have hbyte : (seen.padFor tag2).byte 3 = (seen.padFor tag2).byte 3 + 1 :=
    congrArg (fun block => block.byte 3) h
  exact add_one_ne _ hbyte.symm

end Seen

def messageEntries (n : Nat) (iv : Block) (blocks : List Block) (last : List UInt8)
    (seen : Seen) (tag2 : UInt8) : List (Entry n) :=
  sealEntries n iv blocks seen.shown last.length (seen.padFor tag2)
    (xorAll blocks ^^^ (seen.padFor tag2).overlay last) (seen.tagFor tag2)

section Sealed

variable {n : Nat} {iv : Block} {plain last : List UInt8} {blocks : List Block} {seen : Seen}
  {tag2 : UInt8} {cipher : Cipher} {v : Param n → Block}

theorem offset_of_messageEntries
    (hanswers : HasAnswers cipher v (messageEntries n iv blocks last seen tag2)) :
    cipher iv = v .offset := by
  have hfirst := hanswers _ List.mem_cons_self
  simpa [offsetForm] using hfirst

theorem pad_mem_messageEntries :
    (offsetForm (blocks.length + 1) (lengthBlock last.length),
      fun _ => seen.padFor tag2) ∈ messageEntries n iv blocks last seen tag2 :=
  List.mem_cons_of_mem _ List.mem_cons_self

theorem block_mem_messageEntries {i : Nat} (hi : i < blocks.length) :
    (offsetForm (i + 1) blocks[i], offsetForm (i + 1) (seen.shown i)) ∈
      messageEntries n iv blocks last seen tag2 := by
  simp only [messageEntries, sealEntries, List.mem_cons, List.mem_map]
  exact .inr (.inr (.inr ⟨⟨i, hi⟩, List.mem_finRange _, rfl⟩))

theorem transcript_of_messageEntries (hfits : seen.Fits blocks last)
    (hanswers : HasAnswers cipher v (messageEntries n iv blocks last seen tag2)) :
    Transcript cipher (cipher iv) blocks seen.blocks last.length (seen.padFor tag2) := by
  rw [offset_of_messageEntries hanswers]
  refine ⟨hfits.length_blocks.symm, fun i hi hi' => ?_, ?_⟩
  · rw [← Seen.shown_eq hi']
    exact hanswers _ (block_mem_messageEntries hi)
  · have hpad := hanswers _ pad_mem_messageEntries
    dsimp only at hpad
    rwa [offsetForm_apply, Block.xor_comm] at hpad

theorem tag_of_messageEntries
    (hanswers : HasAnswers cipher v (messageEntries n iv blocks last seen tag2)) :
    cipher (xorAll blocks ^^^ (seen.padFor tag2).overlay last ^^^
      s2^[Gf128.logThree + (blocks.length + 1)] (cipher iv)) = seen.tagFor tag2 := by
  rw [offset_of_messageEntries hanswers]
  have htag := hanswers _ (List.mem_cons_of_mem _ (List.mem_cons_of_mem _ List.mem_cons_self))
  dsimp only at htag
  rwa [offsetForm_apply, Block.xor_comm] at htag

theorem sealPacket_of_messageEntries (hsplit : splitBlocks plain = (blocks, last))
    (hfits : seen.Fits blocks last)
    (hanswers : HasAnswers cipher v (messageEntries n iv blocks last seen tag2)) :
    Ocb2CryptState.sealPacket cipher iv plain = seen.packet iv last := by
  rw [Ocb2CryptState.sealPacket,
    ocbEncrypt_of_transcript hsplit (transcript_of_messageEntries hfits hanswers),
    tag_of_messageEntries hanswers, take_xor_overlay _ hfits.length_le, hfits.xor_take_padFor]
  rfl

end Sealed

/-! ## The opened packet -/

section Opened

variable {iv : Block} {plain last : List UInt8} {blocks cipherBlocks : List Block} {seen : Seen}
  {tag2 : UInt8} {cipher : Cipher}

/-- The cipher blocks of a packet that are not those of the message. -/
def changedBlocks (blocks : List Block) (seen : Seen) (cipherBlocks : List Block) :
    Finset (Fin cipherBlocks.length) :=
  Finset.univ.filter fun j =>
    ¬(j.val < blocks.length ∧ cipherBlocks.get j = seen.shown j)

/-- The blocks to which the packet opens. -/
def packetBlocks (blocks : List Block) (seen : Seen) (cipherBlocks : List Block) :
    (Param cipherBlocks.length → Block) → List Block :=
  openedBlocks (fun j => blocks.getD j.val Block.zero) (changedBlocks blocks seen cipherBlocks)

/-- The entries of the message and of the changed blocks of the packet. -/
def packetEntries (iv : Block) (blocks : List Block) (last : List UInt8) (seen : Seen)
    (tag2 : UInt8) (cipherBlocks : List Block) : List (Entry cipherBlocks.length) :=
  openEntries (changedBlocks blocks seen cipherBlocks) cipherBlocks.get ++
    messageEntries cipherBlocks.length iv blocks last seen tag2

theorem mem_changedBlocks {j : Fin cipherBlocks.length} :
    j ∈ changedBlocks blocks seen cipherBlocks ↔
      ¬(j.val < blocks.length ∧ cipherBlocks.get j = seen.shown j) := by
  simp only [changedBlocks, Finset.mem_filter, Finset.mem_univ, true_and]

theorem pairwise_packetEntries (iv : Block) (last : List UInt8) (seen : Seen) (tag2 : UInt8)
    (hn : cipherBlocks.length + 1 < maxExponent)
    (hlength : blocks.length + 1 < maxExponent) :
    (packetEntries iv blocks last seen tag2 cipherBlocks).Pairwise SeparatedEntries := by
  refine List.pairwise_append.mpr ⟨pairwise_openEntries hn,
    pairwise_sealEntries hlength (seen.padFor_ne_tagFor _), fun entry h entry' h' =>
      separated_open_seal hn hlength (fun j hj hlt heq => ?_) h h'⟩
  exact mem_changedBlocks.mp hj ⟨hlt, heq⟩

theorem length_packetEntries (iv : Block) (blocks : List Block) (last : List UInt8)
    (seen : Seen) (tag2 : UInt8) (cipherBlocks : List Block) :
    (packetEntries iv blocks last seen tag2 cipherBlocks).length ≤
      cipherBlocks.length + blocks.length + 3 := by
  have hopen := List.length_filter_le (· ∈ changedBlocks blocks seen cipherBlocks)
    (List.finRange cipherBlocks.length)
  rw [List.length_finRange] at hopen
  simp only [packetEntries, openEntries, messageEntries, sealEntries, List.length_append,
    List.length_map, List.length_cons, List.length_finRange]
  omega

theorem length_packetEntries_add_lt (iv : Block) (last : List UInt8) (seen : Seen) (tag2 : UInt8)
    (hlength : blocks.length + 2 < maxExponent)
    (hn : cipherBlocks.length + 2 < maxExponent) :
    (packetEntries iv blocks last seen tag2 cipherBlocks).length + 1 < 2 ^ 62 := by
  have hcount := length_packetEntries iv blocks last seen tag2 cipherBlocks
  unfold maxExponent at hlength hn
  omega

theorem ignores_tag_of_mem_packetEntries {entry : Entry cipherBlocks.length}
    (h : entry ∈ packetEntries iv blocks last seen tag2 cipherBlocks) : Ignores .tag entry.2 := by
  rcases List.mem_append.mp h with hopen | hmessage
  · obtain ⟨j, -, rfl⟩ := mem_openEntries.mp hopen
    exact ignores_offsetForm (by rintro ⟨⟩) _ _
  · exact (ignores_of_mem_sealEntries (by rintro ⟨⟩) hmessage).2

theorem transcript_of_packetEntries {v : Param cipherBlocks.length → Block}
    (hfits : seen.Fits blocks last)
    (hanswers : HasAnswers cipher v (packetEntries iv blocks last seen tag2 cipherBlocks))
    {remaining : Nat} {pad : Block}
    (hpad : cipher (lengthBlock remaining ^^^ s2^[cipherBlocks.length + 1] (cipher iv)) = pad) :
    Transcript cipher (cipher iv) (packetBlocks blocks seen cipherBlocks v) cipherBlocks remaining
      pad := by
  have hmessage := hanswers.mono (List.subset_append_right _ _)
  have hlength : (packetBlocks blocks seen cipherBlocks v).length = cipherBlocks.length :=
    length_openedBlocks v
  refine ⟨hlength, fun i hi hi' => ?_, by rwa [hlength]⟩
  simp only [packetBlocks, openedBlocks, List.getElem_ofFn]
  split
  next hchanged =>
    have hanswer := hanswers (openedPoint ⟨i, hi'⟩, offsetForm (i + 1) cipherBlocks[i])
      (List.mem_append_left _ (mem_openEntries.mpr ⟨⟨i, hi'⟩, hchanged, rfl⟩))
    rw [offset_of_messageEntries hmessage]
    exact hanswer
  next hsame =>
    obtain ⟨hlt, hshown⟩ := not_not.mp fun h => hsame (mem_changedBlocks.mpr h)
    have hlt' : i < seen.blocks.length := hfits.length_blocks ▸ hlt
    have hanswer := (transcript_of_messageEntries hfits hmessage).answers i hlt hlt'
    rw [← Seen.shown_eq hlt', ← hshown] at hanswer
    rw [List.getD_eq_getElem _ _ hlt, hanswer]
    rfl

end Opened

/-! ## The tag of the opened packet -/

section Rejected

variable {iv : Block} {plain encrypted last last' : List UInt8} {blocks cipherBlocks : List Block}
  {seen : Seen} {tag0 tag1 tag2 : UInt8} {pad : Value cipherBlocks.length}

/-- Some cipher seals the plaintext into the packet that was seen and does not accept the other
one. -/
def Rejectable (seen : Seen) (iv : Block) (plain : List UInt8) (tag0 tag1 tag2 : UInt8)
    (encrypted : List UInt8) : Prop :=
  ∃ cipher : Cipher,
    Ocb2CryptState.sealPacket cipher iv plain = seen.packet iv (splitBlocks plain).2 ∧
    ¬ Ocb2CryptState.TagMatches cipher iv tag0 tag1 tag2 encrypted

/-- The point at which the cipher is asked for the tag of the opened packet. -/
def tagPoint (blocks : List Block) (seen : Seen) (cipherBlocks : List Block)
    (last' : List UInt8) (pad : Value cipherBlocks.length) : Value cipherBlocks.length := fun v =>
  xorAll (packetBlocks blocks seen cipherBlocks v) ^^^ (Block.zero.overlay last' ^^^ pad v) ^^^
    s2^[Gf128.logThree + (cipherBlocks.length + 1)] (v .offset)

/-- What the opened packet asks for its pad. -/
def padEntry (cipherBlocks : List Block) (last' : List UInt8) (pad : Value cipherBlocks.length) :
    Entry cipherBlocks.length :=
  (offsetForm (cipherBlocks.length + 1) (lengthBlock last'.length), pad)

theorem tag_of_packetEntries {cipher : Cipher} {v : Param cipherBlocks.length → Block}
    (hfits : seen.Fits blocks last)
    (hsplit' : splitBlocks encrypted = (cipherBlocks, last'))
    (hanswers : HasAnswers cipher v (packetEntries iv blocks last seen tag2 cipherBlocks))
    (hpad : cipher ((padEntry cipherBlocks last' pad).1 v) =
      (padEntry cipherBlocks last' pad).2 v) :
    (ocbDecrypt cipher encrypted iv).2 =
      cipher (tagPoint blocks seen cipherBlocks last' pad v) := by
  have hoffset := offset_of_messageEntries (hanswers.mono (List.subset_append_right _ _))
  have hlength : (packetBlocks blocks seen cipherBlocks v).length = cipherBlocks.length :=
    length_openedBlocks v
  have hpad' : cipher (lengthBlock last'.length ^^^ s2^[cipherBlocks.length + 1] (cipher iv)) =
      pad v := by
    rwa [hoffset, Block.xor_comm]
  have htranscript := transcript_of_packetEntries hfits hanswers hpad'
  rw [ocbDecrypt_of_transcript hsplit' htranscript, hlength, hoffset]
  rfl

theorem rejectable_of_answers {cipher : Cipher} {v : Param cipherBlocks.length → Block}
    (hsplit : splitBlocks plain = (blocks, last)) (hfits : seen.Fits blocks last)
    (hsplit' : splitBlocks encrypted = (cipherBlocks, last'))
    (hanswers : HasAnswers cipher v (packetEntries iv blocks last seen tag2 cipherBlocks))
    (hpad : cipher ((padEntry cipherBlocks last' pad).1 v) = (padEntry cipherBlocks last' pad).2 v)
    {tag : Block} (htag : cipher (tagPoint blocks seen cipherBlocks last' pad v) = tag)
    (hne : ¬(tag.byte 0 = tag0 ∧ tag.byte 1 = tag1 ∧ tag.byte 2 = tag2)) :
    Rejectable seen iv plain tag0 tag1 tag2 encrypted := by
  refine ⟨cipher, ?_, fun hmatches => hne ?_⟩
  · rw [hsplit]
    exact sealPacket_of_messageEntries hsplit hfits (hanswers.mono (List.subset_append_right _ _))
  · unfold Ocb2CryptState.TagMatches at hmatches
    rwa [tag_of_packetEntries hfits hsplit' hanswers hpad, htag] at hmatches

theorem rejectable_of_separated (hsplit : splitBlocks plain = (blocks, last))
    (hfits : seen.Fits blocks last) (hsplit' : splitBlocks encrypted = (cipherBlocks, last'))
    {entries : List (Entry cipherBlocks.length)}
    (hsub : packetEntries iv blocks last seen tag2 cipherBlocks ⊆ entries)
    (hpad : padEntry cipherBlocks last' pad ∈ entries)
    (hsep : entries.Pairwise SeparatedEntries) (hlength : entries.length < 2 ^ 62)
    (hignores : ∀ entry ∈ entries, Ignores .tag entry.2)
    (hpoint : ∀ entry ∈ entries,
      Separated (tagPoint blocks seen cipherBlocks last' pad) entry.1) :
    Rejectable seen iv plain tag0 tag1 tag2 encrypted := by
  have hsep' : ((tagPoint blocks seen cipherBlocks last' pad,
      fun v => v .tag) :: entries).Pairwise SeparatedEntries := by
    rw [List.pairwise_cons]
    refine ⟨fun entry h => ⟨hpoint entry h, ?_⟩, hsep⟩
    exact separated_of_ignores (dependsOn_self .tag) (hignores entry h) Function.injective_id
  obtain ⟨v, htag, -, cipher, hanswers⟩ := exists_cipher hsep' hlength tag0 0 Block.zero
  have hanswers' := hanswers.mono (List.subset_cons_self _ entries)
  exact rejectable_of_answers hsplit hfits hsplit' (hanswers'.mono hsub) (hanswers' _ hpad)
    (hanswers _ List.mem_cons_self) fun hsame => htag.ne hsame.1

/-! ### A new pad -/

theorem rejectable_of_fresh_pad (hsplit : splitBlocks plain = (blocks, last))
    (hfits : seen.Fits blocks last) (hsplit' : splitBlocks encrypted = (cipherBlocks, last'))
    (hlength : blocks.length + 2 < maxExponent) (hn : cipherBlocks.length + 2 < maxExponent)
    (hpad : cipherBlocks.length = blocks.length →
      lengthBlock last'.length ≠ lengthBlock last.length)
    (hblocks : ∀ hi : cipherBlocks.length < blocks.length,
      lengthBlock last'.length ≠ blocks[cipherBlocks.length]) :
    Rejectable seen iv plain tag0 tag1 tag2 encrypted := by
  let entry' := padEntry cipherBlocks last' fun v => v .pad
  let entries := packetEntries iv blocks last seen tag2 cipherBlocks
  refine rejectable_of_separated hsplit hfits hsplit' (List.subset_cons_self entry' entries)
    List.mem_cons_self ?_ (length_packetEntries_add_lt iv last seen tag2 hlength hn) ?_ ?_
  · rw [List.pairwise_cons]
    exact ⟨fun entry h => separated_padEntry (by omega) (by omega) hpad hblocks h,
      pairwise_packetEntries iv last seen tag2 (by omega) (by omega)⟩
  · intro entry h
    rcases List.mem_cons.mp h with rfl | hpacket
    · exact ignores_of_ne (by rintro ⟨⟩)
    · exact ignores_tag_of_mem_packetEntries hpacket
  · have hdepends : DependsOn .pad id
        (tagPoint blocks seen cipherBlocks last' fun v => v .pad) :=
      (((dependsOn_self .pad).ignores_xor (ignores_const _ _)).ignores_xor
        (ignores_xorAll_openedBlocks fun _ _ => by rintro ⟨⟩)).xor_ignores
          ((ignores_of_ne (by rintro ⟨⟩)).iterate_s2 _)
    intro entry h
    refine separated_of_ignores hdepends ?_ Function.injective_id
    rcases List.mem_cons.mp h with rfl | hpacket
    · exact ignores_offsetForm (by rintro ⟨⟩) _ _
    · rcases List.mem_append.mp hpacket with hopen | hmessage
      · obtain ⟨j, -, rfl⟩ := mem_openEntries.mp hopen
        exact ignores_openedPoint (by rintro ⟨⟩) (by rintro ⟨⟩)
      · exact (ignores_of_mem_sealEntries (by rintro ⟨⟩) hmessage).1

/-! ### A known pad -/

theorem packetBlocks_of_unchanged (hfits : seen.Fits blocks last)
    (h : changedBlocks blocks seen cipherBlocks = ∅)
    (v : Param cipherBlocks.length → Block) :
    cipherBlocks.length ≤ blocks.length ∧
      packetBlocks blocks seen cipherBlocks v = blocks.take cipherBlocks.length ∧
        cipherBlocks = seen.blocks.take cipherBlocks.length := by
  have hsame (j : Fin cipherBlocks.length) :
      j.val < blocks.length ∧ cipherBlocks.get j = seen.shown j := by
    by_contra hchanged
    have hmem := mem_changedBlocks.mpr hchanged
    rw [h] at hmem
    exact Finset.notMem_empty j hmem
  have hle : cipherBlocks.length ≤ blocks.length := by
    by_contra hlt
    have := (hsame ⟨blocks.length, by omega⟩).1
    dsimp only at this
    omega
  refine ⟨hle, ?_, ?_⟩
  · apply List.ext_getElem
    · simp [packetBlocks, hle]
    · intro i hi hi'
      simp only [packetBlocks, openedBlocks, h, Finset.notMem_empty, if_false, List.getElem_ofFn,
        List.getElem_take]
      exact List.getD_eq_getElem _ _ _
  · apply List.ext_getElem
    · simp [hfits.length_blocks, hle]
    · intro i hi hi'
      obtain ⟨hlt, hshown⟩ := hsame ⟨i, hi⟩
      rw [List.getElem_take, ← Seen.shown_eq]
      exact hshown

theorem separated_xorAll_packetBlocks (hfits : seen.Fits blocks last) {e : Nat} {block : Block}
    (he : ∀ j < cipherBlocks.length, e % Gf128.cycleDivisor ≠ (j + 1) % Gf128.cycleDivisor)
    (hsame : changedBlocks blocks seen cipherBlocks = ∅ →
      ∀ entry ∈ messageEntries cipherBlocks.length iv blocks last seen tag2,
        Separated (offsetForm e (xorAll (blocks.take cipherBlocks.length) ^^^ block)) entry.1)
    {entry : Entry cipherBlocks.length}
    (h : entry ∈ packetEntries iv blocks last seen tag2 cipherBlocks) :
    Separated (fun v => xorAll (packetBlocks blocks seen cipherBlocks v) ^^^ offsetForm e block v)
      entry.1 := by
  rcases List.mem_append.mp h with hopen | hmessage
  · obtain ⟨j, -, rfl⟩ := mem_openEntries.mp hopen
    exact separated_of_exponents
      ((dependsOn_offsetForm e block).ignores_xor
        (ignores_xorAll_openedBlocks fun _ _ => by rintro ⟨⟩))
      (dependsOn_offset_openedPoint j) (he j j.isLt)
  · rcases Finset.eq_empty_or_nonempty (changedBlocks blocks seen cipherBlocks) with
      hempty | ⟨j, hj⟩
    · have hform : (fun v => xorAll (packetBlocks blocks seen cipherBlocks v) ^^^
          offsetForm e block v) =
          offsetForm e (xorAll (blocks.take cipherBlocks.length) ^^^ block) := by
        funext v
        rw [(packetBlocks_of_unchanged hfits hempty v).2.1, offsetForm_apply, offsetForm_apply,
          Block.xor_left_comm]
      rw [hform]
      exact hsame hempty entry hmessage
    · exact separated_of_ignores
        ((dependsOn_xorAll_openedBlocks hj).xor_ignores (ignores_offsetForm (by rintro ⟨⟩) _ _))
        (ignores_of_mem_sealEntries (by rintro ⟨⟩) hmessage).1 Function.injective_id

theorem exists_packet_cipher (iv : Block) (last : List UInt8) (seen : Seen) (tag2 : UInt8)
    (hlength : blocks.length + 2 < maxExponent) (hn : cipherBlocks.length + 2 < maxExponent)
    (byte : UInt8) (e : Nat) (block : Block) :
    ∃ (v : Param cipherBlocks.length → Block) (cipher : Cipher),
      Avoids byte (s2^[e] (v .offset) ^^^ block) ∧
        HasAnswers cipher v (packetEntries iv blocks last seen tag2 cipherBlocks) := by
  have hroom := length_packetEntries_add_lt iv last seen tag2 hlength hn
  have hsep : (packetEntries iv blocks last seen tag2 cipherBlocks).Pairwise SeparatedEntries :=
    pairwise_packetEntries iv last seen tag2 (by omega) (by omega)
  obtain ⟨v, -, havoids, cipher, hanswers⟩ := exists_cipher hsep (by omega) byte e block
  exact ⟨v, cipher, havoids, hanswers⟩

theorem rejectable_of_new_point (hsplit : splitBlocks plain = (blocks, last))
    (hfits : seen.Fits blocks last) (hsplit' : splitBlocks encrypted = (cipherBlocks, last'))
    (hlength : blocks.length + 2 < maxExponent) (hn : cipherBlocks.length + 2 < maxExponent)
    (hpad : padEntry cipherBlocks last' pad ∈ packetEntries iv blocks last seen tag2 cipherBlocks)
    {e : Nat} {block : Block}
    (hform : tagPoint blocks seen cipherBlocks last' pad = fun v =>
      xorAll (packetBlocks blocks seen cipherBlocks v) ^^^ offsetForm e block v)
    (he : ∀ j < cipherBlocks.length, e % Gf128.cycleDivisor ≠ (j + 1) % Gf128.cycleDivisor)
    (hsame : changedBlocks blocks seen cipherBlocks = ∅ →
      ∀ entry ∈ messageEntries cipherBlocks.length iv blocks last seen tag2,
        Separated (offsetForm e (xorAll (blocks.take cipherBlocks.length) ^^^ block)) entry.1) :
    Rejectable seen iv plain tag0 tag1 tag2 encrypted := by
  have hroom := length_packetEntries_add_lt iv last seen tag2 hlength hn
  refine rejectable_of_separated hsplit hfits hsplit' (List.Subset.refl _) hpad
    (pairwise_packetEntries iv last seen tag2 (by omega) (by omega)) (by omega)
    (fun entry h => ignores_tag_of_mem_packetEntries h) fun entry h => ?_
  rw [hform]
  exact separated_xorAll_packetBlocks hfits he hsame h

theorem tagPoint_const (pad : Block) :
    tagPoint blocks seen cipherBlocks last' (fun _ => pad) = fun v =>
      xorAll (packetBlocks blocks seen cipherBlocks v) ^^^
        offsetForm (Gf128.logThree + (cipherBlocks.length + 1))
          (Block.zero.overlay last' ^^^ pad) v := by
  funext v
  dsimp only [tagPoint, offsetForm]
  ac_rfl

theorem rejectable_of_same_length (hsplit : splitBlocks plain = (blocks, last))
    (hfits : seen.Fits blocks last) (hsplit' : splitBlocks encrypted = (cipherBlocks, last'))
    (hlength : blocks.length + 2 < maxExponent) (hcount : cipherBlocks.length = blocks.length)
    (hlast' : last'.length = last.length)
    (hne : cipherBlocks = seen.blocks → last' = Bytes.xor seen.pad last →
      ¬(tag0 = seen.tag.byte 0 ∧ tag1 = seen.tag.byte 1 ∧ tag2 = seen.tag.byte 2)) :
    Rejectable seen iv plain tag0 tag1 tag2 encrypted := by
  have hn : cipherBlocks.length + 2 < maxExponent := hcount ▸ hlength
  let pad := seen.padFor tag2
  have hpad : padEntry cipherBlocks last' (fun _ => pad) ∈
      packetEntries iv blocks last seen tag2 cipherBlocks := by
    simp only [padEntry, hcount, hlast']
    exact List.mem_append_right _ pad_mem_messageEntries
  by_cases hsame : changedBlocks blocks seen cipherBlocks = ∅ ∧
      Block.zero.overlay last' ^^^ pad = pad.overlay last
  · -- the message itself, with the tag that was sealed
    obtain ⟨hempty, hfinal⟩ := hsame
    obtain ⟨v, cipher, -, hanswers⟩ := exists_packet_cipher iv last seen tag2
      hlength hn tag0 0 Block.zero
    have hmessage := hanswers.mono (List.subset_append_right _ _)
    have hlast_eq : last' = Bytes.xor seen.pad last := by
      have hbytes := congrArg (fun block => block.bytes.take last.length)
        (Block.xor_eq_iff.mp hfinal)
      rw [Block.xor_comm, take_xor_overlay pad hfits.length_le, hfits.xor_take_padFor, ← hlast',
        Block.take_overlay (hlast' ▸ hfits.length_le)] at hbytes
      exact hbytes
    have htag : cipher (tagPoint blocks seen cipherBlocks last' (fun _ => pad) v) =
        seen.tagFor tag2 := by
      rw [← tag_of_messageEntries hmessage, offset_of_messageEntries hmessage]
      simp only [tagPoint, (packetBlocks_of_unchanged hfits hempty v).2.1, hcount,
        List.take_length, hfinal, pad]
    refine rejectable_of_answers hsplit hfits hsplit' hanswers (hanswers _ hpad) htag ?_
    rintro ⟨htag0, htag1, htag2⟩
    have hblocks := (packetBlocks_of_unchanged hfits hempty v).2.2
    rw [hcount, ← hfits.length_blocks, List.take_length] at hblocks
    obtain ⟨hbyte0, hbyte1, hbyte2⟩ := seen.tagFor_byte tag2
    exact hne hblocks hlast_eq ⟨htag0.symm.trans hbyte0, htag1.symm.trans hbyte1,
      htag2.symm.trans hbyte2⟩
  · refine rejectable_of_new_point hsplit hfits hsplit' hlength hn hpad (tagPoint_const pad)
      (fun j hj => logThree_add_mod_ne (by omega) (by omega)) fun hempty entry h => ?_
    have hpoint := dependsOn_offsetForm (n := cipherBlocks.length)
      (Gf128.logThree + (cipherBlocks.length + 1))
      (xorAll (blocks.take cipherBlocks.length) ^^^ (Block.zero.overlay last' ^^^ pad))
    refine separated_of_forall_sealEntries ?_ ?_ ?_ ?_ h
    · exact separated_of_offset hpoint (ignores_const _ _)
    · exact separated_of_exponents hpoint (dependsOn_offsetForm _ _)
        (logThree_add_mod_ne (by omega) (by omega))
    · rw [hcount, List.take_length]
      refine separated_offsetForm (fun hchecksum => hsame ⟨hempty, ?_⟩) _
      have hcancel := congrArg (xorAll blocks ^^^ ·) hchecksum
      simpa only [Block.xor_xor_self_left] using hcancel
    · intro i
      exact separated_of_exponents hpoint (dependsOn_offsetForm _ _)
        (logThree_add_mod_ne (by omega) (by omega))

/-- The block under which a packet without changed blocks asks for its tag, if its pad is
asked for where the message has a block. -/
def knownSum (blocks : List Block) (seen : Seen) (cipherBlocks : List Block)
    (last' : List UInt8) : Block :=
  xorAll (blocks.take cipherBlocks.length) ^^^
    (Block.zero.overlay last' ^^^ seen.shown cipherBlocks.length)

theorem tagPoint_shown :
    tagPoint blocks seen cipherBlocks last'
        (offsetForm (cipherBlocks.length + 1) (seen.shown cipherBlocks.length)) = fun v =>
      xorAll (packetBlocks blocks seen cipherBlocks v) ^^^ offsetForm (cipherBlocks.length + 2)
        (Block.zero.overlay last' ^^^ seen.shown cipherBlocks.length) v := by
  funext v
  dsimp only [tagPoint, offsetForm]
  rw [iterate_logThree_add]
  generalize s2^[cipherBlocks.length + 1] (v .offset) = delta
  generalize s2^[cipherBlocks.length + 1 + 1] (v .offset) = delta'
  calc
    _ = (delta ^^^ delta) ^^^ (xorAll (packetBlocks blocks seen cipherBlocks v) ^^^
        (delta' ^^^ (Block.zero.overlay last' ^^^ seen.shown cipherBlocks.length))) := by ac_rfl
    _ = _ := by simp

theorem tagPoint_of_unchanged (hfits : seen.Fits blocks last)
    (h : changedBlocks blocks seen cipherBlocks = ∅)
    (v : Param cipherBlocks.length → Block) :
    tagPoint blocks seen cipherBlocks last'
        (offsetForm (cipherBlocks.length + 1) (seen.shown cipherBlocks.length)) v =
      offsetForm (cipherBlocks.length + 2) (knownSum blocks seen cipherBlocks last') v := by
  simp only [tagPoint_shown, offsetForm_apply, (packetBlocks_of_unchanged hfits h v).2.1, knownSum]
  exact Block.xor_left_comm _ _ _

theorem separated_knownSum (hlength : blocks.length + 2 < maxExponent)
    (hi : cipherBlocks.length < blocks.length)
    (hnext : ∀ hi' : cipherBlocks.length + 1 < blocks.length,
      knownSum blocks seen cipherBlocks last' ≠ blocks[cipherBlocks.length + 1])
    (hfinal : cipherBlocks.length + 1 = blocks.length →
      knownSum blocks seen cipherBlocks last' ≠ lengthBlock last.length)
    {entry : Entry cipherBlocks.length}
    (h : entry ∈ messageEntries cipherBlocks.length iv blocks last seen tag2) :
    Separated (offsetForm (cipherBlocks.length + 2) (knownSum blocks seen cipherBlocks last'))
      entry.1 := by
  have hdepends := dependsOn_offsetForm (n := cipherBlocks.length) (cipherBlocks.length + 2)
    (knownSum blocks seen cipherBlocks last')
  refine separated_of_forall_sealEntries ?_ ?_ ?_ ?_ h
  · exact separated_of_offset hdepends (ignores_const _ _)
  · by_cases hcount : cipherBlocks.length + 1 = blocks.length
    · rw [← hcount]
      exact separated_offsetForm (hfinal hcount) _
    · exact separated_of_exponents hdepends (dependsOn_offsetForm _ _)
        (mod_ne_of_small (by omega) (by omega) (by omega))
  · exact (separated_of_exponents (dependsOn_offsetForm _ _) hdepends
      (logThree_add_mod_ne (by omega) (by omega))).symm
  · intro i
    by_cases hindex : i.val = cipherBlocks.length + 1
    · have hi' : cipherBlocks.length + 1 < blocks.length := hindex ▸ i.isLt
      have hget : blocks.get i = blocks[cipherBlocks.length + 1] := by simp [hindex]
      rw [hindex, hget]
      exact separated_offsetForm (hnext hi') _
    · exact separated_of_exponents hdepends (dependsOn_offsetForm _ _)
        (mod_ne_of_small (by omega) (by omega) (by omega))

/-- A packet that ends where the message has a block that is the length of its final bytes: the
answer for the block is its pad. -/
theorem rejectable_of_block_length (hsplit : splitBlocks plain = (blocks, last))
    (hfits : seen.Fits blocks last) (hsplit' : splitBlocks encrypted = (cipherBlocks, last'))
    (hlength : blocks.length + 2 < maxExponent)
    (hi : cipherBlocks.length < blocks.length)
    (hblock : blocks[cipherBlocks.length] = lengthBlock last'.length)
    (hend : ¬(cipherBlocks.length + 1 = blocks.length ∧ 3 ≤ last.length ∧
      knownSum blocks seen cipherBlocks last' = lengthBlock last.length)) :
    Rejectable seen iv plain tag0 tag1 tag2 encrypted := by
  have hn : cipherBlocks.length + 2 < maxExponent := by omega
  let pad : Value cipherBlocks.length :=
    offsetForm (cipherBlocks.length + 1) (seen.shown cipherBlocks.length)
  have hpad : padEntry cipherBlocks last' pad ∈
      packetEntries iv blocks last seen tag2 cipherBlocks := by
    simp only [padEntry, ← hblock]
    exact List.mem_append_right _ (block_mem_messageEntries hi)
  by_cases hnext : changedBlocks blocks seen cipherBlocks = ∅ ∧
      ∃ hi' : cipherBlocks.length + 1 < blocks.length,
        knownSum blocks seen cipherBlocks last' = blocks[cipherBlocks.length + 1]
  · -- the tag is asked for where the next block was
    obtain ⟨hempty, hi', hknown⟩ := hnext
    obtain ⟨v, cipher, havoids, hanswers⟩ := exists_packet_cipher iv last seen tag2
      hlength hn tag0 (cipherBlocks.length + 2) (seen.shown (cipherBlocks.length + 1))
    have hanswer := hanswers _ (List.mem_append_right _ (block_mem_messageEntries hi'))
    refine rejectable_of_answers hsplit hfits hsplit' hanswers (hanswers _ hpad) ?_
      fun hsame => havoids.ne hsame.1
    rw [tagPoint_of_unchanged hfits hempty, hknown]
    exact hanswer
  by_cases hfinal : changedBlocks blocks seen cipherBlocks = ∅ ∧
      cipherBlocks.length + 1 = blocks.length ∧
        knownSum blocks seen cipherBlocks last' = lengthBlock last.length
  · -- the tag is asked for where the pad of the message was
    obtain ⟨hempty, hcount, hknown⟩ := hfinal
    have hshort : last.length < 3 := by
      by_contra hlong
      exact hend ⟨hcount, by omega, hknown⟩
    obtain ⟨v, cipher, -, hanswers⟩ := exists_packet_cipher iv last seen tag2
      hlength hn tag0 0 Block.zero
    have hanswer := hanswers _ (List.mem_append_right _ pad_mem_messageEntries)
    have htag : cipher (tagPoint blocks seen cipherBlocks last' pad v) =
        seen.padFor tag2 := by
      rw [tagPoint_of_unchanged hfits hempty, hknown]
      simp only [← hcount] at hanswer
      exact hanswer
    refine rejectable_of_answers hsplit hfits hsplit' hanswers (hanswers _ hpad) htag
      fun hsame => ?_
    have hbyte := hsame.2.2
    rw [hfits.padFor_byte_two hshort] at hbyte
    exact Seen.add_one_ne _ hbyte
  exact rejectable_of_new_point hsplit hfits hsplit' hlength hn hpad tagPoint_shown
    (fun j hj => mod_ne_of_small (by omega) (by omega) (by omega)) fun hempty entry h =>
      separated_knownSum hlength hi (fun hi' hknown => hnext ⟨hempty, hi', hknown⟩)
        (fun hcount hknown => hfinal ⟨hempty, hcount, hknown⟩) h

/-! ### Every other packet -/

theorem lengthBlock_inj {remaining remaining' : Nat} (h : remaining ≤ 16) (h' : remaining' ≤ 16)
    (heq : lengthBlock remaining = lengthBlock remaining') : remaining = remaining' := by
  have hbyte := congrArg (fun block => (block.byte 15).toNat) heq
  have hvalue (n : Nat) : ((lengthBlock n).byte 15).toNat = n * 8 % 256 := by
    simp [lengthBlock, Block.byte]
  rw [hvalue, hvalue] at hbyte
  omega

/-- What the shortened message asks the tag for is the length of the final bytes only if the
message exposes its pad. -/
theorem exposes_of_knownSum {cipher : Cipher} (hsplit : splitBlocks plain = (blocks, last))
    (hsplitted : IsSplit cipherBlocks last')
    (hshown : ∀ i (hi : i < blocks.length), seen.shown i = sealedBlock cipher iv i blocks[i])
    (hi : cipherBlocks.length < blocks.length)
    (hblock : blocks[cipherBlocks.length] = lengthBlock last'.length)
    (hcount : cipherBlocks.length + 1 = blocks.length) (htag : 3 ≤ last.length)
    (hknown : knownSum blocks seen cipherBlocks last' = lengthBlock last.length) :
    Exposes cipher plain iv := by
  have hget : blocks.getLast? = some blocks[cipherBlocks.length] := by
    rw [List.getLast?_eq_getElem?, ← hcount, Nat.add_sub_cancel, List.getElem?_eq_getElem hi]
  have hdrop : blocks.dropLast = blocks.take cipherBlocks.length := by
    rw [List.dropLast_eq_take, ← hcount, Nat.add_sub_cancel]
  have hshortened : shortenedBlock cipher plain iv = Block.zero.overlay last' := by
    have hlast : blocks.getLastD Block.zero = blocks[cipherBlocks.length] := by
      rw [List.getLastD_eq_getLast?, hget, Option.getD_some]
    have hlength : (blocks.take cipherBlocks.length).length = cipherBlocks.length := by
      rw [List.length_take]
      omega
    simp only [shortenedBlock, hsplit, hdrop, hlast, hlength]
    rw [← hshown _ hi, ← hknown, knownSum]
    generalize xorAll (blocks.take cipherBlocks.length) = sum
    generalize seen.shown cipherBlocks.length = block
    calc
      _ = (sum ^^^ sum) ^^^ (block ^^^ block) ^^^ Block.zero.overlay last' := by ac_rfl
      _ = _ := by simp
  refine ⟨last'.length, hsplitted.1, ⟨?_, ?_, ?_⟩, ?_⟩
  · rw [hsplit]
    exact hget.trans (congrArg some hblock)
  · rw [hsplit]
    exact htag
  · intro hempty
    rw [hsplit]
    have hnone : cipherBlocks = [] := by
      by_contra hblocks
      exact hsplitted.2 hblocks (List.length_eq_zero_iff.mp hempty)
    rw [hnone] at hcount
    exact hcount.symm
  · intro byte hbyte
    rw [hshortened, Block.bytes_overlay hsplitted.1, List.drop_left' rfl] at hbyte
    exact List.eq_of_mem_replicate (List.mem_of_mem_drop hbyte)

/-- Unless the message is exposed, every packet but its own can be rejected. -/
theorem rejectable_of_ne {cipher : Cipher} (hplain : plain.length + 4 < maxBytes)
    (hencrypted : encrypted.length < maxBytes) (hsplit : splitBlocks plain = (blocks, last))
    (hfits : seen.Fits blocks last)
    (hshown : ∀ i (hi : i < blocks.length), seen.shown i = sealedBlock cipher iv i blocks[i])
    (hend : ¬ Exposes cipher plain iv)
    (hne : iv.byte 0 :: tag0 :: tag1 :: tag2 :: encrypted ≠ seen.packet iv last) :
    Rejectable seen iv plain tag0 tag1 tag2 encrypted := by
  have hsplitted := isSplit_splitBlocks encrypted
  have hjoin := join_splitBlocks plain
  have hjoin' := join_splitBlocks encrypted
  rcases hsplit' : splitBlocks encrypted with ⟨cipherBlocks, last'⟩
  rw [hsplit] at hjoin
  rw [hsplit'] at hsplitted hjoin'
  dsimp only at hsplitted hjoin hjoin'
  have hlength : blocks.length + 2 < maxExponent := by
    have hbytes := congrArg List.length hjoin
    rw [List.length_append, length_joinBlocks] at hbytes
    unfold maxBytes at hplain
    unfold maxExponent
    omega
  have hn : cipherBlocks.length + 2 < maxExponent := by
    have hbytes := congrArg List.length hjoin'
    rw [List.length_append, length_joinBlocks] at hbytes
    unfold maxBytes at hencrypted
    unfold maxExponent
    omega
  by_cases hcount : cipherBlocks.length = blocks.length
  · by_cases hremaining : last'.length = last.length
    · refine rejectable_of_same_length hsplit hfits hsplit' hlength hcount hremaining ?_
      rintro rfl rfl ⟨rfl, rfl, rfl⟩
      exact hne (by rw [Seen.packet, ← hjoin'])
    · refine rejectable_of_fresh_pad hsplit hfits hsplit' hlength hn (fun _ hpad => ?_) ?_
      · exact hremaining (lengthBlock_inj hsplitted.1 hfits.length_le hpad)
      · intro hi
        omega
  · by_cases hblock : ∃ hi : cipherBlocks.length < blocks.length,
        blocks[cipherBlocks.length] = lengthBlock last'.length
    · obtain ⟨hi, hblock⟩ := hblock
      refine rejectable_of_block_length hsplit hfits hsplit' hlength hi hblock ?_
      rintro ⟨hnext, htag, hknown⟩
      exact hend (exposes_of_knownSum hsplit hsplitted hshown hi hblock hnext htag hknown)
    · refine rejectable_of_fresh_pad hsplit hfits hsplit' hlength hn
        (fun hsame => absurd hsame hcount) fun hi hpad => hblock ⟨hi, hpad.symm⟩

end Rejected

/-! ## Resistance -/

section Resistance

variable {iv : Block} {plain packet : List UInt8} {compute : List UInt8 → List UInt8}

theorem exists_seen (cipher : Cipher) (iv : Block) {blocks : List Block} {last : List UInt8}
    (hsplit : splitBlocks plain = (blocks, last)) :
    ∃ seen : Seen, seen.Fits blocks last ∧
      (∀ i (hi : i < blocks.length), seen.shown i = sealedBlock cipher iv i blocks[i]) ∧
      Ocb2CryptState.sealPacket cipher iv plain = seen.packet iv last := by
  obtain ⟨cipherBlocks, pad, htranscript⟩ := exists_transcript cipher (cipher iv) blocks last.length
  have hle := (isSplit_splitBlocks plain).1
  rw [hsplit] at hle
  let seen : Seen := ⟨cipherBlocks, pad.bytes.take last.length, (ocbEncrypt cipher plain iv).2⟩
  have hfits : seen.Fits blocks last := by
    refine ⟨htranscript.length_eq.symm, ?_, hle⟩
    rw [List.length_take, pad.length_bytes]
    exact Nat.min_eq_left hle
  refine ⟨seen, hfits, fun i hi => ?_, ?_⟩
  · have hi' : i < cipherBlocks.length := htranscript.length_eq ▸ hi
    exact (Seen.shown_eq hi').trans (htranscript.getElem_eq_sealedBlock hi hi')
  · rw [Ocb2CryptState.sealPacket, Seen.packet, ← take_xor_overlay pad hle]
    simp only [seen, ocbEncrypt_of_transcript hsplit htranscript]

theorem Forges.accepted (h : Forges compute plain iv packet) {cipher : Cipher}
    (hpacket : Ocb2CryptState.sealPacket cipher iv plain = packet) :
    ∃ receiver : Ocb2CryptState, receiver.cipher = cipher ∧ receiver.Awaits iv ∧
      receiver.Accepts (compute packet) := by
  obtain ⟨sender, receiver, hinit, rfl, hiv, hcipher, hawaits⟩ :=
    Ocb2CryptState.exists_sender_receiver cipher iv
  have hencrypt : (sender.encrypt plain).1 = .ok packet := by
    rw [Ocb2CryptState.encrypt_of_initialized hinit, hiv, hpacket]
  exact ⟨receiver, hcipher, hawaits, h.accepts sender receiver hiv hencrypt hcipher hawaits⟩

/-- No function of a packet that was sealed by a cipher which does not expose the pad forges
another one, be it by xor and truncation or not. -/
theorem not_forges {cipher : Cipher} (hpacket : Ocb2CryptState.sealPacket cipher iv plain = packet)
    (hplain : plain.length + 4 < maxBytes) (hend : ¬ Exposes cipher plain iv) :
    ¬ Forges compute plain iv packet := by
  intro h
  rcases hsplit : splitBlocks plain with ⟨blocks, last⟩
  obtain ⟨seen, hfits, hshown, hseen⟩ := exists_seen cipher iv hsplit
  obtain ⟨receiver, -, -, haccepts⟩ := h.accepted hpacket
  obtain ⟨ivByte, tag0, tag1, tag2, encrypted, hforged⟩ := haccepts.exists_eq
  have hne := h.ne
  have hlength := h.length_lt
  have hhead := h.head?
  rw [hforged] at hne hlength hhead
  obtain rfl : ivByte = iv.byte 0 := Option.some.inj hhead
  have hencrypted : encrypted.length < maxBytes := by
    simp only [List.length_cons] at hlength
    omega
  rw [← hpacket, hseen] at hne
  -- another cipher with the same packet, for which the tag is another one
  obtain ⟨cipher', hsealed', hrejects⟩ :=
    rejectable_of_ne hplain hencrypted hsplit hfits hshown hend hne
  rw [hsplit, ← hseen, hpacket] at hsealed'
  obtain ⟨receiver, hcipher, hawaits, haccepts⟩ := h.accepted hsealed'
  rw [hforged, hawaits.accepts_iff, hcipher] at haccepts
  exact hrejects haccepts

end Resistance

/-- A message that ends with a length pad is exposed by some cipher. -/
theorem exists_exposes {plain : List UInt8} (h : EndsWithLengthPad plain)
    (hplain : plain.length + 4 < maxBytes) (iv : Block) : ∃ cipher, Exposes cipher plain iv := by
  obtain ⟨count, hcount, hends⟩ := h
  have hjoined := congrArg List.length (join_splitBlocks plain)
  have hpad := hends.1
  rcases hsplit : splitBlocks plain with ⟨blocks, last⟩
  rw [hsplit] at hjoined hpad
  obtain ⟨before, rfl⟩ := List.getLast?_eq_some_iff.mp hpad
  have hsmall : before.length + 1 < maxExponent := by
    rw [List.length_append, length_joinBlocks, List.length_append, List.length_singleton] at hjoined
    unfold maxBytes at hplain
    unfold maxExponent
    omega
  -- the last full block is sealed into what the shortened message is to end with
  let target := xorAll before ^^^ lengthBlock last.length
  let entries : List (Entry 0) := [(fun _ => iv, offsetForm 0 Block.zero),
    (offsetForm (before.length + 1) (lengthBlock count), offsetForm (before.length + 1) target)]
  have hseparated : entries.Pairwise SeparatedEntries := by
    refine List.pairwise_pair.mpr ⟨?_, ?_⟩
    · exact (separated_of_offset (dependsOn_offsetForm _ _) (ignores_const _ _)).symm
    · exact separated_of_exponents (dependsOn_offsetForm _ _) (dependsOn_offsetForm _ _)
        (mod_ne_of_small (by decide) hsmall (Nat.succ_ne_zero _).symm)
  obtain ⟨v, -, -, cipher, hanswers⟩ := exists_cipher hseparated (by simp [entries]) 0 0 Block.zero
  have hoffset : cipher iv = v .offset := by
    simpa [entries, offsetForm] using hanswers _ List.mem_cons_self
  have hblock : cipher (s2^[before.length + 1] (v .offset) ^^^ lengthBlock count) =
      s2^[before.length + 1] (v .offset) ^^^ target :=
    hanswers _ (List.mem_cons_of_mem _ List.mem_cons_self)
  refine ⟨cipher, count, hcount, hends, fun byte hbyte => ?_⟩
  have hshortened : shortenedBlock cipher plain iv = Block.zero := by
    simp only [shortenedBlock, hsplit, List.dropLast_concat, List.getLastD_concat, sealedBlock,
      hoffset, hblock, Block.xor_xor_self_left, target, Block.xor_self]
  rw [hshortened] at hbyte
  exact List.eq_of_mem_replicate (List.mem_of_mem_drop hbyte)

/-- The mode resists forgery by xor and truncation, whatever the cipher, exactly for the
messages that do not end with a length pad. The packet of a message that does is forged
exactly if the cipher exposes it. -/
theorem no_splice_forges_iff (plain : List UInt8) (iv : Block)
    (hplain : plain.length + 4 < maxBytes) :
    ((∀ (sender : Ocb2CryptState) (packet : List UInt8), sender.encryptIv.incrIv = iv →
        (sender.encrypt plain).1 = .ok packet →
          ∀ splice : Splice, ¬ Forges splice.eval plain iv packet) ↔ ¬ EndsWithLengthPad plain) ∧
      ∀ (sender : Ocb2CryptState) (packet : List UInt8), sender.encryptIv.incrIv = iv →
        (sender.encrypt plain).1 = .ok packet →
          ((∀ splice : Splice, ¬ Forges splice.eval plain iv packet) ↔
            ¬ Exposes sender.cipher plain iv) := by
  have hexact : ∀ (sender : Ocb2CryptState) (packet : List UInt8), sender.encryptIv.incrIv = iv →
      (sender.encrypt plain).1 = .ok packet →
        ((∀ splice : Splice, ¬ Forges splice.eval plain iv packet) ↔
          ¬ Exposes sender.cipher plain iv) := by
    intro sender packet hiv hpacket
    constructor
    · rintro h ⟨count, hcount, hends, hzero⟩
      exact h _ (forges_truncation hiv hpacket hcount hends hzero hplain)
    · intro hend splice
      have hseal := Ocb2CryptState.sealPacket_of_encrypt hpacket
      rw [hiv] at hseal
      exact not_forges hseal.symm hplain hend
  refine ⟨⟨fun h hends => ?_, fun hends sender packet hiv hpacket => ?_⟩, hexact⟩
  · obtain ⟨cipher, hexposes⟩ := exists_exposes hends hplain iv
    obtain ⟨sender, -, hinit, rfl, hiv, -, -⟩ :=
      Ocb2CryptState.exists_sender_receiver cipher iv
    have hpacket := congrArg Prod.fst (Ocb2CryptState.encrypt_of_initialized hinit plain)
    exact (hexact sender _ hiv hpacket).mp (h sender _ hiv hpacket) hexposes
  · exact (hexact sender packet hiv hpacket).mpr fun hexposes => hends hexposes.endsWithLengthPad

section Example

private def silentPlain : List UInt8 := List.replicate 15 0 ++ [128] ++ [0, 0, 0]

theorem no_splice_forges_iff_silent :
    ((∀ (sender : Ocb2CryptState) (packet : List UInt8), sender.encryptIv.incrIv = Block.zero →
        (sender.encrypt silentPlain).1 = .ok packet →
          ∀ splice : Splice, ¬ Forges splice.eval silentPlain Block.zero packet) ↔
        ¬ EndsWithLengthPad silentPlain) ∧
      ∀ (sender : Ocb2CryptState) (packet : List UInt8), sender.encryptIv.incrIv = Block.zero →
        (sender.encrypt silentPlain).1 = .ok packet →
          ((∀ splice : Splice, ¬ Forges splice.eval silentPlain Block.zero packet) ↔
            ¬ Exposes sender.cipher silentPlain Block.zero) :=
  no_splice_forges_iff silentPlain Block.zero (by decide)

/-- A message can be truncated for every cipher. -/
theorem truncation_accepted :
    ¬ ∀ (plain packet : List UInt8) (iv : Block) (sender : Ocb2CryptState) (splice : Splice),
      plain.length + 4 < maxBytes → sender.encryptIv.incrIv = iv →
        (sender.encrypt plain).1 = .ok packet → ¬ Forges splice.eval plain iv packet := by
  intro h
  obtain ⟨sender, -, hinit, -, hiv, -, -⟩ :=
    Ocb2CryptState.exists_sender_receiver (Equiv.refl Block) Block.zero
  have hpacket := congrArg Prod.fst (Ocb2CryptState.encrypt_of_initialized hinit silentPlain)
  refine h silentPlain _ Block.zero sender (truncation 16 silentPlain Block.zero) (by decide) hiv
    hpacket (forges_truncation hiv hpacket le_rfl (by decide) ?_ (by decide))
  -- sixteen bytes are kept, so none has to be zero
  intro byte hbyte
  rw [List.drop_of_length_le (by simp)] at hbyte
  cases hbyte

end Example

end FancyMumble.Transport.Ocb2
