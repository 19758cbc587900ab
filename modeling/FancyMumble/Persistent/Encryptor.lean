import FancyMumble.Lib.Outcome
import FancyMumble.Persistent.Types

/-!
# The message encryptor

A plaintext is padded to whole blocks and a random number of bytes more, encrypted with
associated data, and sent behind a version byte and its nonce.
-/

namespace FancyMumble.Persistent

open Lib Lib.Outcome

def keyLen : Nat := 32

def nonceLen : Nat := 24

def paddingBlock : Nat := 256

def encryptionVersion : UInt8 := 0x01

structure XNonce where
  bytes : List UInt8
  length_bytes : bytes.length = nonceLen
deriving DecidableEq

def XNonce.fromSlice (bytes : List UInt8) : Outcome Error XNonce :=
  if h : bytes.length = nonceLen then .ok ⟨bytes, h⟩ else .panicked

theorem XNonce.fromSlice_bytes (nonce : XNonce) : fromSlice nonce.bytes = .ok nonce :=
  dif_pos nonce.length_bytes

/-! ## The cipher -/

structure Aead where
  Cipher : Type
  newFromSlice : List UInt8 → Except String Cipher
  encrypt : Cipher → XNonce → List UInt8 → List UInt8 → Except String (List UInt8)
  decrypt : Cipher → XNonce → List UInt8 → List UInt8 → Except String (List UInt8)

/-- An ideal cipher: a ciphertext decrypts to what was encrypted, nothing decrypts that was
not encrypted under the same associated data, and a ciphertext is that of one associated
data only. A ciphertext has its tag in it. -/
structure Aead.Ideal (aead : Aead) : Prop where
  decrypt_encrypt : ∀ {cipher nonce msg aad ciphertext},
    aead.encrypt cipher nonce msg aad = .ok ciphertext →
      aead.decrypt cipher nonce ciphertext aad = .ok msg
  encrypt_decrypt : ∀ {cipher nonce ciphertext aad msg},
    aead.decrypt cipher nonce ciphertext aad = .ok msg →
      aead.encrypt cipher nonce msg aad = .ok ciphertext
  binding : ∀ {cipher cipher' nonce msg msg' aad aad' ciphertext},
    aead.encrypt cipher nonce msg aad = .ok ciphertext →
      aead.encrypt cipher' nonce msg' aad' = .ok ciphertext → aad = aad'
  tag : ∀ {cipher nonce msg aad ciphertext},
    aead.encrypt cipher nonce msg aad = .ok ciphertext → 16 ≤ ciphertext.length

/-! ## Padding -/

def padPlaintext (nextU32 : UInt32) (plaintext : List UInt8) : Outcome Error (List UInt8) := do
  let minPaddedLen := plaintext.length + 2
  let blocksNeeded := (minPaddedLen + (paddingBlock - 1)) / paddingBlock
  let blockAligned := blocksNeeded * paddingBlock
  let jitter := nextU32.toNat % paddingBlock
  let paddedLength := blockAligned + jitter
  let padCount ← checkedSub paddedLength plaintext.length
  if padCount < 2 ^ 16 then do
    let size ← checkedSub paddedLength 2
    let output := (plaintext ++ List.replicate (size - plaintext.length) 0).take size
    pure (output ++ toBeBytes 2 padCount)
  else .err (.invalidState "message too large for padding")

def unpadPlaintext (padded : List UInt8) : Outcome Error (List UInt8) :=
  if padded.length < 2 then .err (.invalidState "padded data too short")
  else do
    let at1 ← checkedSub padded.length 2
    let at0 ← checkedSub padded.length 1
    let b1 ← index padded at1
    let b0 ← index padded at0
    let padCount := b1.toNat * 256 + b0.toNat
    if padCount < 2 ∨ padCount > padded.length then
      .err (.invalidState s!"invalid pad_count: {padCount} for data length {padded.length}")
    else do
      let plaintextLen ← checkedSub padded.length padCount
      slice padded 0 plaintextLen

theorem padCount_bounds (nextU32 : UInt32) (length : Nat) :
    length + 2 ≤ (length + 2 + (paddingBlock - 1)) / paddingBlock * paddingBlock +
        nextU32.toNat % paddingBlock ∧
      (length + 2 + (paddingBlock - 1)) / paddingBlock * paddingBlock +
        nextU32.toNat % paddingBlock < length + 2 * paddingBlock + 2 := by
  have hjitter : nextU32.toNat % paddingBlock < paddingBlock := Nat.mod_lt _ (by decide)
  have hblock : paddingBlock = 256 := rfl
  rw [hblock] at *
  omega

theorem exists_padPlaintext_eq (nextU32 : UInt32) (plaintext : List UInt8) :
    ∃ zeros, zeros + 2 < 2 ^ 16 ∧ padPlaintext nextU32 plaintext =
      .ok (plaintext ++ List.replicate zeros 0 ++ toBeBytes 2 (zeros + 2)) := by
  obtain ⟨hlow, hhigh⟩ := padCount_bounds nextU32 plaintext.length
  generalize hpadded : (plaintext.length + 2 + (paddingBlock - 1)) / paddingBlock * paddingBlock +
    nextU32.toNat % paddingBlock = padded at hlow hhigh
  have hblock : paddingBlock = 256 := rfl
  have hcount : padded - plaintext.length = padded - 2 - plaintext.length + 2 := by omega
  have hfits : padded - plaintext.length < 2 ^ 16 := by omega
  have htake : (plaintext ++ List.replicate (padded - 2 - plaintext.length) (0 : UInt8)).take
      (padded - 2) = plaintext ++ List.replicate (padded - 2 - plaintext.length) 0 := by
    apply List.take_of_length_le
    rw [List.length_append, List.length_replicate]
    omega
  refine ⟨padded - 2 - plaintext.length, by omega, ?_⟩
  rw [padPlaintext]
  dsimp only
  rw [hpadded, checkedSub_of_le (by omega), ok_bind, if_pos hfits, checkedSub_of_le (by omega),
    ok_bind, htake, ← hcount]
  rfl

theorem toBeBytes_two {n : Nat} (h : n < 2 ^ 16) :
    ∃ b1 b0 : UInt8, toBeBytes 2 n = [b1, b0] ∧ b1.toNat * 256 + b0.toNat = n := by
  refine ⟨UInt8.ofNat (n / 256), UInt8.ofNat n, rfl, ?_⟩
  rw [UInt8.toNat_ofNat', UInt8.toNat_ofNat']
  omega

theorem unpadPlaintext_append {xs : List UInt8} {n : Nat} (hn : n + 2 < 2 ^ 16)
    (hle : n ≤ xs.length) :
    unpadPlaintext (xs ++ toBeBytes 2 (n + 2)) = .ok (xs.take (xs.length - n)) := by
  obtain ⟨b1, b0, hbytes, hvalue⟩ := toBeBytes_two hn
  have hlength : (xs ++ [b1, b0]).length = xs.length + 2 := by
    rw [List.length_append]
    rfl
  have hone : (index (xs ++ [b1, b0]) xs.length : Outcome Error UInt8) = .ok b1 := by
    rw [index_of_lt (by omega)]
    simp
  have hzero : (index (xs ++ [b1, b0]) (xs.length + 1) : Outcome Error UInt8) = .ok b0 := by
    rw [index_of_lt (by omega)]
    simp
  have hlast : xs.length + 2 - 1 = xs.length + 1 := rfl
  have hrest : xs.length + 2 - (n + 2) = xs.length - n := by omega
  rw [hbytes, unpadPlaintext, hlength, if_neg (by omega), checkedSub_of_le (by omega), ok_bind,
    checkedSub_of_le (by omega), ok_bind, Nat.add_sub_cancel, hlast, hone, ok_bind, hzero,
    ok_bind]
  dsimp only
  rw [hvalue, if_neg (by omega), checkedSub_of_le (by omega), ok_bind, hrest,
    slice_of_le (Nat.zero_le _) (by rw [hlength]; omega), List.drop_zero,
    List.take_append_of_le_length (Nat.sub_le _ _)]

theorem unpadPlaintext_padPlaintext {nextU32 : UInt32} {plaintext padded : List UInt8}
    (h : padPlaintext nextU32 plaintext = .ok padded) :
    unpadPlaintext padded = .ok plaintext := by
  obtain ⟨zeros, hfits, hpad⟩ := exists_padPlaintext_eq nextU32 plaintext
  rw [hpad] at h
  cases h
  have hlength : (plaintext ++ List.replicate zeros (0 : UInt8)).length =
      plaintext.length + zeros := by
    rw [List.length_append, List.length_replicate]
  rw [unpadPlaintext_append hfits (by omega), hlength, Nat.add_sub_cancel, List.take_left]

theorem noPanic_unpadPlaintext (padded : List UInt8) : NoPanic (unpadPlaintext padded) := by
  rw [unpadPlaintext]
  by_cases hshort : padded.length < 2
  · rw [if_pos hshort]
    exact noPanic_err _
  rw [if_neg hshort, checkedSub_of_le (by omega), ok_bind, checkedSub_of_le (by omega), ok_bind,
    index_of_lt (by omega), ok_bind, index_of_lt (by omega), ok_bind]
  dsimp only
  split
  · exact noPanic_err _
  · rw [checkedSub_of_le (by omega), ok_bind, slice_of_le (Nat.zero_le _) (Nat.sub_le _ _)]
    exact noPanic_ok _

/-! ## The encryptor -/

namespace XChaChaEncryptor

variable (aead : Aead)

def lowerHex (b : UInt8) : String :=
  "0x" ++ String.ofList [Nat.digitChar (b.toNat / 16), Nat.digitChar (b.toNat % 16)]

def encrypt (nextU32 : UInt32) (nonce : XNonce) (key plaintext aad : List UInt8) :
    Outcome Error (List UInt8) :=
  if key.length ≠ keyLen then
    .err (.invalidState s!"encryption key must be {keyLen} bytes, got {key.length}")
  else do
    let padded ← padPlaintext nextU32 plaintext
    let cipher ← ofExcept .other (aead.newFromSlice key)
    let ciphertext ← ofExcept (fun e => .other s!"encryption failed: {e}")
      (aead.encrypt cipher nonce padded aad)
    pure (encryptionVersion :: (nonce.bytes ++ ciphertext))

def decrypt (key payload aad : List UInt8) : Outcome Error (List UInt8) :=
  if key.length ≠ keyLen then
    .err (.invalidState s!"decryption key must be {keyLen} bytes, got {key.length}")
  else if payload.length < 1 + nonceLen + 16 then .err (.invalidState "payload too short")
  else do
    let version ← index payload 0
    if version ≠ encryptionVersion then
      .err (.invalidState s!"unsupported encryption version: {lowerHex version}")
    else do
      let nonceBytes ← slice payload 1 (1 + nonceLen)
      let nonce ← XNonce.fromSlice nonceBytes
      let ciphertext ← sliceFrom payload (1 + nonceLen)
      let cipher ← ofExcept .other (aead.newFromSlice key)
      let padded ← ofExcept (fun e => .other s!"decryption failed: {e}")
        (aead.decrypt cipher nonce ciphertext aad)
      unpadPlaintext padded

variable {aead}

theorem encrypt_eq_ok {nextU32 : UInt32} {nonce : XNonce} {key plaintext aad payload : List UInt8}
    (h : encrypt aead nextU32 nonce key plaintext aad = .ok payload) :
    key.length = keyLen ∧ ∃ padded cipher ciphertext,
      padPlaintext nextU32 plaintext = .ok padded ∧ aead.newFromSlice key = .ok cipher ∧
        aead.encrypt cipher nonce padded aad = .ok ciphertext ∧
        payload = encryptionVersion :: (nonce.bytes ++ ciphertext) := by
  rw [encrypt] at h
  by_cases hkey : key.length ≠ keyLen
  · rw [if_pos hkey] at h
    cases h
  · rw [if_neg hkey] at h
    obtain ⟨padded, hpadded, h⟩ := bind_eq_ok_iff.mp h
    obtain ⟨cipher, hcipher, h⟩ := bind_eq_ok_iff.mp h
    obtain ⟨ciphertext, hciphertext, h⟩ := bind_eq_ok_iff.mp h
    cases h
    exact ⟨not_not.mp hkey, padded, cipher, ciphertext, hpadded, ofExcept_eq_ok_iff.mp hcipher,
      ofExcept_eq_ok_iff.mp hciphertext, rfl⟩

theorem encrypt_fails {nextU32 : UInt32} {nonce : XNonce} {key plaintext aad : List UInt8}
    (h : ∀ payload, encrypt aead nextU32 nonce key plaintext aad ≠ .ok payload) :
    key.length ≠ keyLen ∨ (∃ e, aead.newFromSlice key = .error e) ∨
      ∃ cipher padded e, aead.newFromSlice key = .ok cipher ∧
        padPlaintext nextU32 plaintext = .ok padded ∧
        aead.encrypt cipher nonce padded aad = .error e := by
  by_cases hkey : key.length = keyLen
  swap
  · exact .inl hkey
  obtain ⟨zeros, hzeros, hpad⟩ := exists_padPlaintext_eq nextU32 plaintext
  cases hcipher : aead.newFromSlice key with
  | error e => exact .inr (.inl ⟨e, rfl⟩)
  | ok cipher =>
      cases hciphertext : aead.encrypt cipher nonce
          (plaintext ++ List.replicate zeros 0 ++ toBeBytes 2 (zeros + 2)) aad with
      | error e => exact .inr (.inr ⟨cipher, _, e, rfl, hpad, hciphertext⟩)
      | ok ciphertext =>
          refine absurd ?_ (h (encryptionVersion :: (nonce.bytes ++ ciphertext)))
          rw [encrypt, if_neg (not_not_intro hkey), hpad, ok_bind, hcipher, ofExcept_ok, ok_bind,
            hciphertext, ofExcept_ok, ok_bind]
          rfl

theorem decrypt_payload {key aad ciphertext : List UInt8} {nonce : XNonce}
    (hkey : key.length = keyLen) (htag : 16 ≤ ciphertext.length) :
    decrypt aead key (encryptionVersion :: (nonce.bytes ++ ciphertext)) aad =
      (ofExcept .other (aead.newFromSlice key) >>= fun cipher =>
        ofExcept (fun e => .other s!"decryption failed: {e}")
          (aead.decrypt cipher nonce ciphertext aad) >>= unpadPlaintext) := by
  have hnonce := nonce.length_bytes
  have hlength : (encryptionVersion :: (nonce.bytes ++ ciphertext)).length =
      1 + nonceLen + ciphertext.length := by
    rw [List.length_cons, List.length_append, hnonce]
    omega
  have hslice : (slice (encryptionVersion :: (nonce.bytes ++ ciphertext)) 1 (1 + nonceLen) :
      Outcome Error _) = .ok nonce.bytes := by
    rw [slice_of_le (by omega) (by omega), Nat.add_comm 1 nonceLen, List.take_succ_cons,
      ← hnonce, List.take_left]
    rfl
  have hrest : (sliceFrom (encryptionVersion :: (nonce.bytes ++ ciphertext)) (1 + nonceLen) :
      Outcome Error _) = .ok ciphertext := by
    rw [sliceFrom_of_le (by omega), Nat.add_comm 1 nonceLen, List.drop_succ_cons, ← hnonce,
      List.drop_left]
  rw [decrypt, if_neg (not_not_intro hkey), if_neg (by omega), index_cons_zero, ok_bind,
    if_neg (not_not_intro rfl), hslice, ok_bind, XNonce.fromSlice_bytes, ok_bind, hrest, ok_bind]

theorem noPanic_decrypt (key payload aad : List UInt8) :
    NoPanic (decrypt aead key payload aad) := by
  rw [decrypt]
  split
  · exact noPanic_err _
  split
  · exact noPanic_err _
  rename_i hlength
  rw [index_of_lt (by omega), ok_bind]
  split
  · exact noPanic_err _
  have hnonce : ((payload.take (1 + nonceLen)).drop 1).length = nonceLen := by
    rw [List.length_drop, List.length_take]
    omega
  rw [slice_of_le (by omega) (by omega), ok_bind, XNonce.fromSlice, dif_pos hnonce, ok_bind,
    sliceFrom_of_le (by omega), ok_bind, noPanic_bind]
  refine ⟨noPanic_ofExcept _ _, fun cipher _ => ?_⟩
  rw [noPanic_bind]
  exact ⟨noPanic_ofExcept _ _, fun padded _ => noPanic_unpadPlaintext padded⟩

/-! ### An ideal cipher -/

theorem decrypt_encrypt (hideal : aead.Ideal) {nextU32 : UInt32} {nonce : XNonce}
    {key plaintext aad payload : List UInt8}
    (h : encrypt aead nextU32 nonce key plaintext aad = .ok payload) :
    decrypt aead key payload aad = .ok plaintext := by
  obtain ⟨hkey, padded, cipher, ciphertext, hpadded, hcipher, hciphertext, rfl⟩ := encrypt_eq_ok h
  rw [decrypt_payload hkey (hideal.tag hciphertext), hcipher, ofExcept_ok, ok_bind,
    hideal.decrypt_encrypt hciphertext, ofExcept_ok, ok_bind]
  exact unpadPlaintext_padPlaintext hpadded

theorem decrypt_encrypt_ne (hideal : aead.Ideal) {nextU32 : UInt32} {nonce : XNonce}
    {key key' plaintext aad aad' payload : List UInt8}
    (h : encrypt aead nextU32 nonce key plaintext aad = .ok payload) (hne : aad' ≠ aad) :
    ∃ e, decrypt aead key' payload aad' = .err e := by
  obtain ⟨hkey, padded, cipher, ciphertext, hpadded, hcipher, hciphertext, rfl⟩ := encrypt_eq_ok h
  by_cases hkey' : key'.length ≠ keyLen
  · exact ⟨_, by rw [decrypt, if_pos hkey']⟩
  rw [decrypt_payload (not_not.mp hkey') (hideal.tag hciphertext)]
  cases aead.newFromSlice key' with
  | error e => exact ⟨_, rfl⟩
  | ok cipher' =>
      rw [ofExcept_ok, ok_bind]
      cases hopen : aead.decrypt cipher' nonce ciphertext aad' with
      | error e => exact ⟨_, rfl⟩
      | ok msg =>
          exact absurd (hideal.binding (hideal.encrypt_decrypt hopen) hciphertext) hne

end XChaChaEncryptor

end FancyMumble.Persistent
