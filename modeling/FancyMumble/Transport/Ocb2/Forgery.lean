import FancyMumble.Transport.Ocb2.FreeAnswers

/-!
# Forged packets

Who sees a sealed packet, and knows what it says, can take bytes of it and add others to
them. When can a packet be made in this way that the receiver accepts under the same nonce?
The packet shows a part of what the cipher answers. A forgery is accepted because of that
part, that is, by every cipher that seals the message into the packet.
-/

namespace FancyMumble.Transport.Ocb2

open Lib Lib.Separation
open Block (s2)

/-! ## Receivers -/

namespace Ocb2CryptState

structure Awaits (state : Ocb2CryptState) (iv : Block) : Prop where
  initialized : state.initialized = true
  nonce : ∃ step, stepNonce state.decryptIv (iv.byte 0) = some step ∧ step.iv = iv
  unrecorded : state.decryptHistory (iv.byte 0) ≠ iv.byte 1

def Accepts (self : Ocb2CryptState) (packet : List UInt8) : Prop :=
  ∃ plaintext, (self.decrypt packet).1 = .ok plaintext

variable {self : Ocb2CryptState} {iv : Block}

theorem Awaits.accepts_iff (h : self.Awaits iv) {tag0 tag1 tag2 : UInt8}
    {ciphertext : List UInt8} :
    self.Accepts (iv.byte 0 :: tag0 :: tag1 :: tag2 :: ciphertext) ↔
      TagMatches self.cipher iv tag0 tag1 tag2 ciphertext := by
  obtain ⟨step, hstep, rfl⟩ := h.nonce
  unfold Accepts decrypt
  simp only [h.initialized, Bool.not_true, Bool.false_eq_true, if_false, hstep,
    if_neg h.unrecorded]
  by_cases htag : TagMatches self.cipher step.iv tag0 tag1 tag2 ciphertext
  · simp [htag]
  · simp [htag]

theorem Accepts.exists_eq {packet : List UInt8} (h : self.Accepts packet) :
    ∃ ivByte tag0 tag1 tag2 ciphertext,
      packet = ivByte :: tag0 :: tag1 :: tag2 :: ciphertext := by
  obtain ⟨plaintext, hplaintext⟩ := h
  rcases decrypt_cases self packet with
    ⟨err, herr⟩ | ⟨ivByte, tag0, tag1, tag2, ciphertext, step, hpacket, -⟩
  · rw [herr] at hplaintext
    cases hplaintext
  · exact ⟨ivByte, tag0, tag1, tag2, ciphertext, hpacket⟩

/-- For every cipher there are a sender whose next nonce is the given one, and a receiver that
awaits it. -/
theorem exists_sender_receiver (cipher : Cipher) (iv : Block) :
    ∃ sender receiver : Ocb2CryptState, sender.initialized = true ∧
      sender.cipher = cipher ∧ sender.encryptIv.incrIv = iv ∧ receiver.cipher = cipher ∧
      receiver.Awaits iv := by
  let before := Block.ofLeNat (iv.leNat + (2 ^ 128 - 1))
  have hlt := iv.leNat_lt
  have hbefore : (before.leNat + 1) % 2 ^ 128 = iv.leNat := by
    rw [Block.leNat_ofLeNat]
    omega
  have hincr : before.incrIv = iv := by
    apply Block.leNat_inj
    rw [Block.leNat_incrIv, hbefore]
  let sender : Ocb2CryptState :=
    { cipher, rawKey := Block.zero, encryptIv := before, decryptIv := before
      decryptHistory := fun _ => ~~~ iv.byte 1, stats := {}, initialized := true }
  refine ⟨sender, sender, rfl, rfl, hincr, rfl, rfl, ?_, ?_⟩
  · have hbyte : (iv.byte 0).toNat = (before.leNat + 1) % 256 := by
      rw [Block.toNat_byte_zero, ← hbefore]
      omega
    obtain ⟨step, hstep, hvalue, -⟩ := stepNonce_next hbyte
    exact ⟨step, hstep, Block.leNat_inj (hvalue.trans hbefore)⟩
  · intro hsame
    have hbytes := congrArg UInt8.toNat hsame
    have hnot : (~~~ iv.byte 1).toNat = 255 - (iv.byte 1).toNat := by
      rw [UInt8.toNat_not]
      rfl
    have hbyte := (iv.byte 1).toNat_lt
    dsimp only [sender] at hbytes
    omega

end Ocb2CryptState

/-! ## Computations -/

/-- What can be computed from the bytes of a packet by xor and truncation. -/
inductive Splice where
  | packet
  | const (bytes : List UInt8)
  | take (count : Nat) (bytes : Splice)
  | drop (count : Nat) (bytes : Splice)
  | append (first second : Splice)
  | xor (first second : Splice)

def Splice.eval (sealedPacket : List UInt8) : Splice → List UInt8
  | .packet => sealedPacket
  | .const bytes => bytes
  | .take count bytes => (bytes.eval sealedPacket).take count
  | .drop count bytes => (bytes.eval sealedPacket).drop count
  | .append first second => first.eval sealedPacket ++ second.eval sealedPacket
  | .xor first second => Bytes.xor (first.eval sealedPacket) (second.eval sealedPacket)

def maxBytes : Nat := 2 ^ 63

/-- The computation makes another packet of the one at hand, and whatever cipher sealed the
plaintext into the packet, the other packet is accepted under the same nonce. -/
structure Forges (compute : List UInt8 → List UInt8) (plain : List UInt8) (iv : Block)
    (packet : List UInt8) : Prop where
  ne : compute packet ≠ packet
  length_lt : (compute packet).length < maxBytes
  head? : (compute packet).head? = some (iv.byte 0)
  accepts : ∀ sender receiver : Ocb2CryptState, sender.encryptIv.incrIv = iv →
    (sender.encrypt plain).1 = .ok packet → receiver.cipher = sender.cipher →
      receiver.Awaits iv → receiver.Accepts (compute packet)

/-! ## A length pad as a block -/

/-- The last full block of the message is the length of that many final bytes, and at least as
many bytes follow it as a tag has. Only a packet without full blocks has no final bytes. -/
def EndsWithPadOf (count : Nat) (plain : List UInt8) : Prop :=
  (splitBlocks plain).1.getLast? = some (lengthBlock count) ∧ 3 ≤ (splitBlocks plain).2.length ∧
    (count = 0 → (splitBlocks plain).1.length = 1)

instance (count : Nat) (plain : List UInt8) : Decidable (EndsWithPadOf count plain) :=
  inferInstanceAs (Decidable (_ ∧ _))

def EndsWithLengthPad (plain : List UInt8) : Prop := ∃ count ≤ 16, EndsWithPadOf count plain

instance (plain : List UInt8) : Decidable (EndsWithLengthPad plain) :=
  inferInstanceAs (Decidable (∃ count ≤ 16, _))

def sealedBlock (cipher : Cipher) (iv : Block) (i : Nat) (block : Block) : Block :=
  s2^[i + 1] (cipher iv) ^^^ cipher (s2^[i + 1] (cipher iv) ^^^ block)

/-- What the final bytes of a message without its last ones are to be, filled up with zeros:
then its checksum is the length of the bytes that are left out. -/
def shortenedBlock (cipher : Cipher) (plain : List UInt8) (iv : Block) : Block :=
  let (blocks, last) := splitBlocks plain
  let before := blocks.dropLast
  sealedBlock cipher iv before.length (blocks.getLastD Block.zero) ^^^
    (xorAll before ^^^ lengthBlock last.length)

/-- The message ends with the length pad of so many bytes that the others of the shortened
block are zero. For sixteen bytes that is so whatever the cipher. -/
def Exposes (cipher : Cipher) (plain : List UInt8) (iv : Block) : Prop :=
  ∃ count ≤ 16, EndsWithPadOf count plain ∧
    ∀ byte ∈ (shortenedBlock cipher plain iv).bytes.drop count, byte = 0

theorem Exposes.endsWithLengthPad {cipher : Cipher} {plain : List UInt8} {iv : Block}
    (h : Exposes cipher plain iv) : EndsWithLengthPad plain := by
  obtain ⟨count, hcount, hends, -⟩ := h
  exact ⟨count, hcount, hends⟩

/-- The final bytes are dropped, the last full block is changed by a known difference and cut
to the bytes whose length it is, and the tag is read off the final bytes. -/
def truncation (count : Nat) (plain : List UInt8) (iv : Block) : Splice :=
  let (blocks, last) := splitBlocks plain
  let before := blocks.dropLast
  let change := xorAll before ^^^ lengthBlock last.length
  .append (.const [iv.byte 0])
    (.append (.xor (.take 3 (.drop (4 + 16 * blocks.length) .packet)) (.const (last.take 3)))
      (.append (.take (16 * before.length) (.drop 4 .packet))
        (.take count
          (.xor (.take 16 (.drop (4 + 16 * before.length) .packet)) (.const change.bytes)))))

theorem iterate_logThree_add (e : Nat) (block : Block) :
    s2^[Gf128.logThree + e] block = s2^[e] block ^^^ s2^[e + 1] block := by
  rw [← s3_iterate, Block.s3_eq, s2_iterate]

theorem zero_overlay_take {block : Block} {count : Nat} (hcount : count ≤ 16)
    (hzero : ∀ byte ∈ block.bytes.drop count, byte = 0) :
    Block.zero.overlay (block.bytes.take count) = block := by
  have hlength : (block.bytes.take count).length = count := by simp [hcount]
  have hrest : block.bytes.drop count = List.replicate (16 - count) 0 := by
    rw [List.eq_replicate_iff]
    exact ⟨by simp, hzero⟩
  apply Block.ext
  rw [Block.bytes_overlay (by omega), hlength]
  conv_rhs => rw [← List.take_append_drop count block.bytes, hrest]
  change _ ++ (List.replicate 16 0).drop count = _
  rw [List.drop_replicate]

theorem ocbDecrypt_shortened {cipher : Cipher} {iv pad cipherBlock : Block}
    {before cipherBefore : List Block} {remaining count : Nat}
    (h : Transcript cipher (cipher iv) (before ++ [lengthBlock count])
      (cipherBefore ++ [cipherBlock]) remaining pad) (hcount : count ≤ 16)
    (hsome : count = 0 → before = [])
    (hzero : ∀ byte ∈ (cipherBlock ^^^ (xorAll before ^^^ lengthBlock remaining)).bytes.drop count,
      byte = 0) :
    (ocbDecrypt cipher (joinBlocks cipherBefore ++
      (cipherBlock ^^^ (xorAll before ^^^ lengthBlock remaining)).bytes.take count) iv).2 =
        pad := by
  have hlength : before.length = cipherBefore.length := by simpa using h.length_eq
  have hlast := h.answers before.length (by simp) (by simp [hlength])
  rw [List.getElem_concat_length rfl, List.getElem_concat_length hlength] at hlast
  have hshort : Transcript cipher (cipher iv) before cipherBefore count
      (s2^[before.length + 1] (cipher iv) ^^^ cipherBlock) := by
    refine ⟨hlength, fun i hi hi' => ?_, ?_⟩
    · have hanswer := h.answers i (by simp; omega) (by simp; omega)
      rwa [List.getElem_append_left hi, List.getElem_append_left hi'] at hanswer
    · rw [Block.xor_comm, hlast]
  have hoverlay := zero_overlay_take hcount hzero
  generalize hfinal : (cipherBlock ^^^ (xorAll before ^^^ lengthBlock remaining)).bytes.take count =
    final at hoverlay
  have hfull : final.length = count := by simp [← hfinal, hcount]
  have hsplitted : IsSplit cipherBefore final := by
    refine ⟨by omega, fun hblocks hempty => hblocks ?_⟩
    have hnone : before = [] := hsome (by rw [← hfull, hempty, List.length_nil])
    exact List.length_eq_zero_iff.mp (by rw [← hlength, hnone, List.length_nil])
  have hsplit := splitBlocks_join hsplitted
  rw [ocbDecrypt_of_transcript hsplit (hfull.symm ▸ hshort), hoverlay, iterate_logThree_add]
  have hpoint : xorAll before ^^^ (cipherBlock ^^^ (xorAll before ^^^ lengthBlock remaining) ^^^
      (s2^[before.length + 1] (cipher iv) ^^^ cipherBlock)) ^^^
      (s2^[before.length + 1] (cipher iv) ^^^ s2^[before.length + 1 + 1] (cipher iv)) =
        lengthBlock remaining ^^^ s2^[before.length + 1 + 1] (cipher iv) := by
    generalize s2^[before.length + 1] (cipher iv) = delta
    generalize s2^[before.length + 1 + 1] (cipher iv) = delta'
    calc
      _ = (xorAll before ^^^ xorAll before) ^^^ (cipherBlock ^^^ cipherBlock) ^^^
          (delta ^^^ delta) ^^^ (lengthBlock remaining ^^^ delta') := by ac_rfl
      _ = lengthBlock remaining ^^^ delta' := by simp
  have hpad := h.finalPad
  rw [List.length_append, List.length_singleton] at hpad
  rw [hpoint, hpad]

theorem take_xor_overlay (pad : Block) {last : List UInt8} (hlast : last.length ≤ 16) :
    (pad ^^^ pad.overlay last).bytes.take last.length =
      Bytes.xor (pad.bytes.take last.length) last := by
  rw [Block.bytes_xor, Block.bytes_overlay hlast, Bytes.xor, Bytes.xor, List.take_zipWith,
    List.take_left' rfl]

theorem take_three_bytes (block : Block) :
    block.bytes.take 3 = [block.byte 0, block.byte 1, block.byte 2] := by
  obtain ⟨bytes, hlength⟩ := block
  match bytes with
  | b0 :: b1 :: b2 :: bytes => rfl
  | [] => cases hlength
  | [_] => cases hlength
  | [_, _] => cases hlength

theorem eval_truncation {plain last : List UInt8} {before : List Block} {count : Nat}
    (hsplit : splitBlocks plain = (before ++ [lengthBlock count], last))
    (hlast : last.length ≤ 16) (htag : 3 ≤ last.length) {iv pad cipherBlock : Block}
    {cipherBefore : List Block} (hlength : before.length = cipherBefore.length)
    (tag0 tag1 tag2 : UInt8) :
    (truncation count plain iv).eval (iv.byte 0 :: tag0 :: tag1 :: tag2 ::
        (joinBlocks (cipherBefore ++ [cipherBlock]) ++
          (pad ^^^ pad.overlay last).bytes.take last.length)) =
      iv.byte 0 :: pad.byte 0 :: pad.byte 1 :: pad.byte 2 ::
        (joinBlocks cipherBefore ++
          (cipherBlock ^^^ (xorAll before ^^^ lengthBlock last.length)).bytes.take count) := by
  generalize hfinal : (pad ^^^ pad.overlay last).bytes.take last.length = final
  have hjoin : joinBlocks (cipherBefore ++ [cipherBlock]) =
      joinBlocks cipherBefore ++ cipherBlock.bytes := by
    simp [joinBlocks]
  have hheader (count : Nat) (rest : List UInt8) :
      (iv.byte 0 :: tag0 :: tag1 :: tag2 :: rest).drop (4 + count) = rest.drop count := by
    rw [Nat.add_comm]
    rfl
  have hshown : Bytes.xor (final.take 3) (last.take 3) = pad.bytes.take 3 := by
    have hfirst : final.take 3 = Bytes.xor (pad.bytes.take 3) (last.take 3) := by
      rw [← hfinal, take_xor_overlay pad hlast, Bytes.xor, List.take_zipWith, List.take_take,
        Nat.min_eq_left htag]
      rfl
    rw [hfirst]
    apply Bytes.xor_xor_cancel
    rw [List.length_take, List.length_take, pad.length_bytes]
    omega
  have hend : (joinBlocks (cipherBefore ++ [cipherBlock]) ++ final).drop
      (16 * (before ++ [lengthBlock count]).length) = final := by
    apply List.drop_left'
    simp [hlength]
  have hstart : (joinBlocks (cipherBefore ++ [cipherBlock]) ++ final).take
      (16 * before.length) = joinBlocks cipherBefore := by
    rw [hjoin, List.append_assoc]
    apply List.take_left'
    rw [length_joinBlocks, hlength]
  have hmiddle : ((joinBlocks (cipherBefore ++ [cipherBlock]) ++ final).drop
      (16 * before.length)).take 16 = cipherBlock.bytes := by
    rw [hjoin, List.append_assoc, List.drop_left' (by rw [length_joinBlocks, hlength])]
    exact List.take_left' cipherBlock.length_bytes
  simp only [truncation, hsplit, Splice.eval, List.dropLast_concat, hheader, hend, hshown,
    hmiddle, take_three_bytes]
  rw [← Nat.add_zero 4, hheader, List.drop_zero, hstart, Block.bytes_xor]
  rfl

theorem Ocb2CryptState.sealPacket_of_encrypt {sender : Ocb2CryptState}
    {plain packet : List UInt8} (h : (sender.encrypt plain).1 = .ok packet) :
    packet = sealPacket sender.cipher sender.encryptIv.incrIv plain := by
  unfold encrypt at h
  split at h
  · cases h
  · exact (Except.ok.inj h).symm

section Shown

variable {cipher : Cipher} {iv pad : Block} {plain last : List UInt8}
  {plainBlocks cipherBlocks : List Block}

theorem Transcript.getElem_eq_sealedBlock {remaining : Nat}
    (h : Transcript cipher (cipher iv) plainBlocks cipherBlocks remaining pad) {i : Nat}
    (hi : i < plainBlocks.length) (hi' : i < cipherBlocks.length) :
    cipherBlocks[i] = sealedBlock cipher iv i plainBlocks[i] := by
  rw [sealedBlock, h.answers i hi hi', Block.xor_xor_self_left]

/-- The packet shows the sealed blocks. -/
theorem splitBlocks_sealPacket (hsplit : splitBlocks plain = (plainBlocks, last))
    (h : Transcript cipher (cipher iv) plainBlocks cipherBlocks last.length pad) :
    splitBlocks ((Ocb2CryptState.sealPacket cipher iv plain).drop 4) =
      (cipherBlocks, (pad ^^^ pad.overlay last).bytes.take last.length) := by
  have hsplitted := isSplit_splitBlocks plain
  rw [hsplit] at hsplitted
  obtain ⟨hle, hsome⟩ := hsplitted
  dsimp only at hle hsome
  have hdrop : (Ocb2CryptState.sealPacket cipher iv plain).drop 4 =
      joinBlocks cipherBlocks ++ (pad ^^^ pad.overlay last).bytes.take last.length := by
    rw [Ocb2CryptState.sealPacket, ocbEncrypt_of_transcript hsplit h]
    rfl
  have hfinal : ((pad ^^^ pad.overlay last).bytes.take last.length).length = last.length := by
    simp [hle]
  rw [hdrop]
  refine splitBlocks_join ⟨by omega, fun hblocks hempty => ?_⟩
  have hnone : last = [] := by
    rw [← List.length_eq_zero_iff, ← hfinal, hempty, List.length_nil]
  refine hsome (fun hplain => hblocks ?_) hnone
  rw [← List.length_eq_zero_iff, ← h.length_eq, hplain, List.length_nil]

theorem length_sealPacket (hsplit : splitBlocks plain = (plainBlocks, last))
    (h : Transcript cipher (cipher iv) plainBlocks cipherBlocks last.length pad) :
    (Ocb2CryptState.sealPacket cipher iv plain).length =
      4 + 16 * plainBlocks.length + last.length := by
  have hle : last.length ≤ 16 := by
    simpa only [hsplit] using (isSplit_splitBlocks plain).1
  rw [Ocb2CryptState.sealPacket, ocbEncrypt_of_transcript hsplit h]
  simp only [List.length_cons, List.length_append, length_joinBlocks, List.length_take,
    Block.length_bytes, h.length_eq]
  omega

theorem eval_truncation_sealPacket {before cipherBefore : List Block} {cipherBlock : Block}
    {count : Nat} (hsplit : splitBlocks plain = (before ++ [lengthBlock count], last))
    (htag : 3 ≤ last.length)
    (h : Transcript cipher (cipher iv) (before ++ [lengthBlock count])
      (cipherBefore ++ [cipherBlock]) last.length pad) :
    (truncation count plain iv).eval (Ocb2CryptState.sealPacket cipher iv plain) =
      iv.byte 0 :: pad.byte 0 :: pad.byte 1 :: pad.byte 2 :: (joinBlocks cipherBefore ++
        (cipherBlock ^^^ (xorAll before ^^^ lengthBlock last.length)).bytes.take count) := by
  have hle : last.length ≤ 16 := by
    simpa only [hsplit] using (isSplit_splitBlocks plain).1
  have hlength : before.length = cipherBefore.length := by simpa using h.length_eq
  rw [Ocb2CryptState.sealPacket, ocbEncrypt_of_transcript hsplit h]
  exact eval_truncation hsplit hle htag hlength _ _ _

end Shown

/-- A message with the pad of a shorter last block at its end can be truncated. -/
theorem forges_truncation {sender : Ocb2CryptState} {plain packet : List UInt8} {iv : Block}
    (hiv : sender.encryptIv.incrIv = iv) (hpacket : (sender.encrypt plain).1 = .ok packet)
    {count : Nat} (hcount : count ≤ 16) (h : EndsWithPadOf count plain)
    (hzero : ∀ byte ∈ (shortenedBlock sender.cipher plain iv).bytes.drop count, byte = 0)
    (hplain : plain.length + 4 < maxBytes) :
    Forges (truncation count plain iv).eval plain iv packet := by
  have hjoined := congrArg List.length (join_splitBlocks plain)
  obtain ⟨hpad, htag, hsingle⟩ := h
  unfold shortenedBlock at hzero
  rcases hsplit : splitBlocks plain with ⟨blocks, last⟩
  rw [hsplit] at hjoined hpad htag hsingle hzero
  dsimp only at hjoined hpad htag hsingle hzero
  obtain ⟨before, rfl⟩ := List.getLast?_eq_some_iff.mp hpad
  obtain ⟨cipherBlocks, pad, htranscript⟩ := exists_transcript sender.cipher (sender.cipher iv)
    (before ++ [lengthBlock count]) last.length
  obtain ⟨cipherBefore, cipherBlock, rfl⟩ :
      ∃ cipherBefore cipherBlock, cipherBlocks = cipherBefore ++ [cipherBlock] := by
    rcases List.eq_nil_or_concat cipherBlocks with rfl | ⟨cipherBefore, cipherBlock, heq⟩
    · simpa using htranscript.length_eq
    · exact ⟨cipherBefore, cipherBlock, by rw [heq, List.concat_eq_append]⟩
  have hlength : before.length = cipherBefore.length := by simpa using htranscript.length_eq
  have hshown : cipherBlock = sealedBlock sender.cipher iv before.length (lengthBlock count) := by
    have hblock := htranscript.getElem_eq_sealedBlock (i := before.length) (by simp)
      (by simp [hlength])
    rwa [List.getElem_concat_length rfl, List.getElem_concat_length hlength] at hblock
  simp only [List.dropLast_concat, List.getLastD_concat, ← hshown] at hzero
  have hseal := Ocb2CryptState.sealPacket_of_encrypt hpacket
  rw [hiv] at hseal
  have hvalue := eval_truncation_sealPacket hsplit htag htranscript
  have hlengths := length_sealPacket hsplit htranscript
  rw [← hseal] at hvalue hlengths
  simp only [List.length_append, List.length_singleton] at hlengths
  refine ⟨?_, ?_, by rw [hvalue]; rfl, ?_⟩
  · -- the final bytes are missing
    intro hsame
    have hshorter := congrArg List.length (hvalue.symm.trans hsame)
    simp only [List.length_cons, List.length_append, length_joinBlocks, Block.length_bytes,
      List.length_take] at hshorter
    omega
  · rw [List.length_append, length_joinBlocks, List.length_append, List.length_singleton] at hjoined
    rw [hvalue]
    simp only [List.length_cons, List.length_append, length_joinBlocks, Block.length_bytes,
      List.length_take]
    omega
  · -- any cipher that gives the packet has the same sealed blocks, and the pad it shows
    intro sender' receiver hiv' hpacket' hcipher hawaits
    obtain ⟨cipherBlocks', pad', htranscript'⟩ := exists_transcript sender'.cipher
      (sender'.cipher iv) (before ++ [lengthBlock count]) last.length
    have hseal' := Ocb2CryptState.sealPacket_of_encrypt hpacket'
    rw [hiv'] at hseal'
    have hblocks := splitBlocks_sealPacket hsplit htranscript
    rw [← hseal, hseal', splitBlocks_sealPacket hsplit htranscript'] at hblocks
    obtain rfl : cipherBlocks' = cipherBefore ++ [cipherBlock] := (Prod.mk.inj hblocks).1
    have hvalue' := eval_truncation_sealPacket hsplit htag htranscript'
    rw [← hseal'] at hvalue'
    have hsome : count = 0 → before = [] := by
      intro hnone
      simpa using hsingle hnone
    have hdecrypt := ocbDecrypt_shortened htranscript' hcount hsome hzero
    rw [hvalue', hawaits.accepts_iff, hcipher]
    simp only [Ocb2CryptState.TagMatches, hdecrypt, and_self]

end FancyMumble.Transport.Ocb2
