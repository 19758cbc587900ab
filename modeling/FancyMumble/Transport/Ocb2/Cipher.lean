import FancyMumble.Transport.Ocb2.Block

/-!
# The OCB2 mode

`ocb_encrypt` and `ocb_decrypt`: both run the full blocks through the cipher
under doubled offsets, xor the final 0 to 16 bytes with a length-dependent pad,
and encrypt the checksum for the tag.
-/

namespace FancyMumble.Transport.Ocb2

/-- An AES-128 key schedule of the `aes` crate: `encrypt_block` is the permutation
and `decrypt_block` its inverse. -/
abbrev Cipher := Equiv.Perm Block

def aesEncrypt (cipher : Cipher) (input : Block) : Block := cipher input

def aesDecrypt (cipher : Cipher) (input : Block) : Block := cipher.symm input

@[simp] theorem aesDecrypt_aesEncrypt (cipher : Cipher) (block : Block) :
    aesDecrypt cipher (aesEncrypt cipher block) = block :=
  cipher.symm_apply_apply block

/-! ## Slicing -/

def splitLoop : Nat → List UInt8 → List Block × List UInt8
  | 0, rest => ([], rest)
  | fuel + 1, rest =>
      if h : 16 < rest.length then
        let (blocks, last) := splitLoop fuel (rest.drop 16)
        (⟨rest.take 16, by simp; omega⟩ :: blocks, last)
      else ([], rest)

/-- The slicing of the `while remaining > AES_BLOCK_SIZE` loops: whole blocks as
long as more than one block remains, and the 0 to 16 bytes left for the end. -/
def splitBlocks (bytes : List UInt8) : List Block × List UInt8 := splitLoop bytes.length bytes

def joinBlocks (blocks : List Block) : List UInt8 := blocks.flatMap Block.bytes

@[simp] theorem joinBlocks_nil : joinBlocks [] = [] := rfl

@[simp] theorem joinBlocks_cons (block : Block) (blocks : List Block) :
    joinBlocks (block :: blocks) = block.bytes ++ joinBlocks blocks := rfl

@[simp] theorem length_joinBlocks (blocks : List Block) :
    (joinBlocks blocks).length = 16 * blocks.length := by
  induction blocks with
  | nil => rfl
  | cons block blocks ih =>
      rw [joinBlocks_cons, List.length_append, ih, block.length_bytes, List.length_cons]
      omega

def IsSplit (blocks : List Block) (last : List UInt8) : Prop :=
  last.length ≤ 16 ∧ (blocks ≠ [] → last ≠ [])

theorem splitLoop_join {blocks : List Block} {last : List UInt8} (h : IsSplit blocks last)
    {fuel : Nat} (hfuel : blocks.length ≤ fuel) :
    splitLoop fuel (joinBlocks blocks ++ last) = (blocks, last) := by
  induction blocks generalizing fuel with
  | nil =>
      have hlast : ¬ 16 < last.length := by
        have := h.1
        omega
      cases fuel with
      | zero => rfl
      | succ fuel =>
          rw [splitLoop, dif_neg (by simpa using hlast)]
          rfl
  | cons block blocks ih =>
      cases fuel with
      | zero => simp at hfuel
      | succ fuel =>
          have hpos : 0 < last.length := List.length_pos_iff.mpr (h.2 (by simp))
          have hlength : 16 < (joinBlocks (block :: blocks) ++ last).length := by
            simp
            omega
          have hdrop : (joinBlocks (block :: blocks) ++ last).drop 16 =
              joinBlocks blocks ++ last := by
            rw [joinBlocks_cons, List.append_assoc]
            exact List.drop_left' block.length_bytes
          have htake : (joinBlocks (block :: blocks) ++ last).take 16 = block.bytes := by
            rw [joinBlocks_cons, List.append_assoc]
            exact List.take_left' block.length_bytes
          have hfuel' : blocks.length ≤ fuel := by simpa using hfuel
          have hih := ih ⟨h.1, fun _ => h.2 (by simp)⟩ hfuel'
          rw [splitLoop, dif_pos hlength]
          simp only [hdrop, hih, htake]

theorem splitBlocks_join {blocks : List Block} {last : List UInt8} (h : IsSplit blocks last) :
    splitBlocks (joinBlocks blocks ++ last) = (blocks, last) := by
  apply splitLoop_join h
  rw [List.length_append, length_joinBlocks]
  omega

theorem splitLoop_spec (fuel : Nat) (bytes : List UInt8) (hfuel : bytes.length ≤ fuel) :
    IsSplit (splitLoop fuel bytes).1 (splitLoop fuel bytes).2 ∧
      joinBlocks (splitLoop fuel bytes).1 ++ (splitLoop fuel bytes).2 = bytes := by
  induction fuel generalizing bytes with
  | zero =>
      have : bytes = [] := by simpa using hfuel
      subst this
      exact ⟨⟨by simp [splitLoop], by simp [splitLoop]⟩, rfl⟩
  | succ fuel ih =>
      rw [splitLoop]
      by_cases h : 16 < bytes.length
      · obtain ⟨hsplit, hjoin⟩ := ih (bytes.drop 16) (by simp; omega)
        rw [dif_pos h]
        refine ⟨⟨hsplit.1, fun _ hlast => ?_⟩, ?_⟩
        · -- an empty rest would leave at least one block without its last bytes
          rcases hblocks : (splitLoop fuel (bytes.drop 16)).1 with _ | ⟨b, bs⟩
          · rw [hblocks, hlast] at hjoin
            have := congrArg List.length hjoin
            simp at this
            omega
          · exact hsplit.2 (by simp [hblocks]) hlast
        · simp only [joinBlocks_cons, List.append_assoc, hjoin]
          exact List.take_append_drop 16 bytes
      · rw [dif_neg h]
        exact ⟨⟨by simpa using h, by simp⟩, rfl⟩

theorem isSplit_splitBlocks (bytes : List UInt8) :
    IsSplit (splitBlocks bytes).1 (splitBlocks bytes).2 :=
  (splitLoop_spec bytes.length bytes le_rfl).1

theorem join_splitBlocks (bytes : List UInt8) :
    joinBlocks (splitBlocks bytes).1 ++ (splitBlocks bytes).2 = bytes :=
  (splitLoop_spec bytes.length bytes le_rfl).2

/-! ## Encryption -/

/-- The block loop of `ocb_encrypt`, from the offset and checksum so far to the
offset, the checksum and the cipher blocks. -/
def encryptBlocks (cipher : Cipher) : Block → Block → List Block → Block × Block × List Block
  | delta, checksum, [] => (delta, checksum, [])
  | delta, checksum, plainBlock :: rest =>
      let delta := delta.s2
      let tmp := aesEncrypt cipher (delta ^^^ plainBlock)
      let cipherBlock := delta ^^^ tmp
      let (delta, checksum, encrypted) := encryptBlocks cipher delta (checksum ^^^ plainBlock) rest
      (delta, checksum, cipherBlock :: encrypted)

/-- The bit length of the final bytes, as a big-endian `u32` in the last four bytes. -/
def lengthBlock (remaining : Nat) : Block :=
  let bitLen := UInt32.ofNat (remaining * 8)
  ⟨List.replicate 12 (0 : UInt8) ++ [(bitLen >>> 24).toUInt8, (bitLen >>> 16).toUInt8,
    (bitLen >>> 8).toUInt8, bitLen.toUInt8], by simp⟩

def finalPad (cipher : Cipher) (delta : Block) (remaining : Nat) : Block :=
  aesEncrypt cipher (lengthBlock remaining ^^^ delta)

def finalTag (cipher : Cipher) (delta checksum : Block) : Block :=
  aesEncrypt cipher (checksum ^^^ delta.s3)

/-- The tag is the cipher of the checksum and three times the offset. -/
theorem finalTag_eq (cipher : Cipher) (delta checksum : Block) :
    finalTag cipher delta checksum = cipher (checksum ^^^ (delta ^^^ delta.s2)) := rfl

def ocbEncrypt (cipher : Cipher) (plain : List UInt8) (nonce : Block) : List UInt8 × Block :=
  let (blocks, last) := splitBlocks plain
  let (delta, checksum, encrypted) :=
    encryptBlocks cipher (aesEncrypt cipher nonce) Block.zero blocks
  let delta := delta.s2
  let remaining := last.length
  let pad := finalPad cipher delta remaining
  let finalPlain := pad.overlay last
  let checksum := checksum ^^^ finalPlain
  let cipherFinal := pad ^^^ finalPlain
  (joinBlocks encrypted ++ cipherFinal.bytes.take remaining, finalTag cipher delta checksum)

/-! ## Decryption -/

def decryptBlocks (cipher : Cipher) : Block → Block → List Block → Block × Block × List Block
  | delta, checksum, [] => (delta, checksum, [])
  | delta, checksum, cipherBlock :: rest =>
      let delta := delta.s2
      let tmp := aesDecrypt cipher (delta ^^^ cipherBlock)
      let plainBlock := delta ^^^ tmp
      let (delta, checksum, plain) := decryptBlocks cipher delta (checksum ^^^ plainBlock) rest
      (delta, checksum, plainBlock :: plain)

def ocbDecrypt (cipher : Cipher) (encrypted : List UInt8) (nonce : Block) : List UInt8 × Block :=
  let (blocks, last) := splitBlocks encrypted
  let (delta, checksum, plain) :=
    decryptBlocks cipher (aesEncrypt cipher nonce) Block.zero blocks
  let delta := delta.s2
  let remaining := last.length
  let pad := finalPad cipher delta remaining
  let finalCipher := Block.zero.overlay last
  let finalPlain := finalCipher ^^^ pad
  let checksum := checksum ^^^ finalPlain
  (joinBlocks plain ++ finalPlain.bytes.take remaining, finalTag cipher delta checksum)

/-! ## Round trip -/

@[simp] theorem length_encryptBlocks (cipher : Cipher) (delta checksum : Block)
    (blocks : List Block) : (encryptBlocks cipher delta checksum blocks).2.2.length =
      blocks.length := by
  induction blocks generalizing delta checksum with
  | nil => rfl
  | cons block blocks ih => simp [encryptBlocks, ih]

theorem decryptBlocks_encryptBlocks (cipher : Cipher) (delta checksum : Block)
    (blocks : List Block) :
    decryptBlocks cipher delta checksum (encryptBlocks cipher delta checksum blocks).2.2 =
      ((encryptBlocks cipher delta checksum blocks).1,
        (encryptBlocks cipher delta checksum blocks).2.1, blocks) := by
  induction blocks generalizing delta checksum with
  | nil => rfl
  | cons block blocks ih =>
      simp only [encryptBlocks, decryptBlocks, Block.xor_xor_self_left, aesDecrypt_aesEncrypt, ih]

theorem overlay_zero_take (pad : Block) {last : List UInt8} (hlast : last.length ≤ 16) :
    Block.zero.overlay ((pad ^^^ pad.overlay last).bytes.take last.length) =
      pad ^^^ pad.overlay last := by
  have htake : ((pad ^^^ pad.overlay last).bytes.take last.length).length = last.length := by
    simp [hlast]
  apply Block.ext
  rw [Block.bytes_overlay (by omega), htake]
  conv_rhs => rw [← List.take_append_drop last.length (pad ^^^ pad.overlay last).bytes]
  congr 1
  rw [Block.bytes_xor, Lib.Bytes.xor, List.drop_zipWith, Block.bytes_overlay hlast,
    List.drop_left' rfl]
  apply List.ext_getElem
  · simp [Block.zero]
  · intro i h₁ h₂
    simp [Block.zero, Block.replicate]

theorem ocbDecrypt_ocbEncrypt (cipher : Cipher) (plain : List UInt8) (nonce : Block) :
    ocbDecrypt cipher (ocbEncrypt cipher plain nonce).1 nonce =
      (plain, (ocbEncrypt cipher plain nonce).2) := by
  have hsplit := isSplit_splitBlocks plain
  have hjoin := join_splitBlocks plain
  rcases hblocks : splitBlocks plain with ⟨blocks, last⟩
  rw [hblocks] at hsplit hjoin
  rcases hloop : encryptBlocks cipher (aesEncrypt cipher nonce) Block.zero blocks with
    ⟨delta, checksum, encrypted⟩
  have hround := decryptBlocks_encryptBlocks cipher (aesEncrypt cipher nonce) Block.zero blocks
  have hcount := length_encryptBlocks cipher (aesEncrypt cipher nonce) Block.zero blocks
  rw [hloop] at hround hcount
  simp only at hround hcount hsplit hjoin
  generalize hpad : finalPad cipher delta.s2 last.length = pad
  have htake : ((pad ^^^ pad.overlay last).bytes.take last.length).length = last.length := by
    simp [hsplit.1]
  have hsplit' : IsSplit encrypted ((pad ^^^ pad.overlay last).bytes.take last.length) := by
    refine ⟨by rw [htake]; exact hsplit.1, fun hne => ?_⟩
    have hblocks' : blocks ≠ [] := by
      intro h
      rw [h] at hcount
      exact hne (List.length_eq_zero_iff.mp hcount)
    have hpos := List.length_pos_iff.mpr (hsplit.2 hblocks')
    apply List.length_pos_iff.mp
    omega
  have henc : ocbEncrypt cipher plain nonce =
      (joinBlocks encrypted ++ (pad ^^^ pad.overlay last).bytes.take last.length,
        finalTag cipher delta.s2 (checksum ^^^ pad.overlay last)) := by
    simp only [ocbEncrypt, hblocks, hloop, hpad]
  rw [henc]
  simp only [ocbDecrypt, splitBlocks_join hsplit', hround, htake, hpad,
    overlay_zero_take pad hsplit.1]
  rw [Block.xor_comm pad, Block.xor_xor_self_right, Block.take_overlay hsplit.1, hjoin]

end FancyMumble.Transport.Ocb2
