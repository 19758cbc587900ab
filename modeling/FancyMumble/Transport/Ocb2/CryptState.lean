import FancyMumble.Error
import FancyMumble.Transport.Ocb2.Cipher

/-!
# The OCB2 crypt state

`Ocb2CryptState`: the key, the two nonces, the replay history and the link
statistics, with the key set-up, the resync, and the packet operations.
Every packet is `[iv_byte_0] [tag_0] [tag_1] [tag_2] [ciphertext...]`.
-/

namespace FancyMumble.Transport.Ocb2

/-- The `aes` crate: a 16-byte key selects the cipher. -/
abbrev Aes128 := Block → Cipher

structure PacketStats where
  good : UInt32 := 0
  late : UInt32 := 0
  lost : UInt32 := 0
  resync : UInt32 := 0
deriving DecidableEq, Repr

def PacketStats.record (stats : PacketStats) (late lost : Int) : PacketStats :=
  let stats := { stats with good := stats.good + 1 }
  let stats :=
    if late > 0 then { stats with late := stats.late + UInt32.ofNat late.toNat } else stats
  if lost > 0 then
    { stats with lost := stats.lost + UInt32.ofNat lost.toNat }
  else if stats.late.toInt32.toInt > (lost.natAbs : Int) then
    { stats with late := stats.late - UInt32.ofNat lost.natAbs }
  else stats

structure Ocb2CryptState where
  cipher : Cipher
  rawKey : Block
  /-- Nonce for the outbound direction. -/
  encryptIv : Block
  /-- Nonce for the inbound direction. -/
  decryptIv : Block
  /-- Replay detection: stores `decrypt_iv[1]` for each `decrypt_iv[0]` value. -/
  decryptHistory : UInt8 → UInt8
  stats : PacketStats
  initialized : Bool

namespace Ocb2CryptState

/-! ## Set-up -/

def new (aes : Aes128) : Ocb2CryptState where
  cipher := aes Block.zero
  rawKey := Block.zero
  encryptIv := Block.zero
  decryptIv := Block.zero
  decryptHistory := fun _ => 0
  stats := {}
  initialized := false

def install (aes : Aes128) (self : Ocb2CryptState) (key clientNonce serverNonce : Block) :
    Ocb2CryptState :=
  { self with
    rawKey := key
    encryptIv := clientNonce
    decryptIv := serverNonce
    cipher := aes key
    -- the complement cannot match `decrypt_iv[1]` on the first packet
    decryptHistory := fun _ => ~~~ serverNonce.byte 1
    initialized := true }

def setKey (aes : Aes128) (self : Ocb2CryptState) (key clientNonce serverNonce : List UInt8) :
    Except Error Ocb2CryptState :=
  match Block.ofBytes? key with
  | none => .error (.invalidState s!"OCB2 key must be {aesBlockSize} bytes, got {key.length}")
  | some key =>
      match Block.ofBytes? clientNonce, Block.ofBytes? serverNonce with
      | some clientNonce, some serverNonce => .ok (self.install aes key clientNonce serverNonce)
      | _, _ => .error (.invalidState "OCB2 nonces must be 16 bytes")

def setDecryptIv (self : Ocb2CryptState) (serverNonce : List UInt8) : Ocb2CryptState :=
  match Block.ofBytes? serverNonce with
  | some serverNonce => { self with decryptIv := serverNonce }
  | none => self

/-! ## Encryption -/

def sealPacket (cipher : Cipher) (iv : Block) (plaintext : List UInt8) : List UInt8 :=
  let (ciphertext, tag) := ocbEncrypt cipher plaintext iv
  iv.byte 0 :: tag.byte 0 :: tag.byte 1 :: tag.byte 2 :: ciphertext

def encrypt (self : Ocb2CryptState) (plaintext : List UInt8) :
    Except Error (List UInt8) × Ocb2CryptState :=
  if !self.initialized then
    (.error (.invalidState "OCB2 not initialized"), self)
  else
    let self := { self with encryptIv := self.encryptIv.incrIv }
    (.ok (sealPacket self.cipher self.encryptIv plaintext), self)

/-! ## Decryption -/

/-- What the first byte of a packet says about its nonce. -/
structure NonceStep where
  iv : Block
  late : Int := 0
  lost : Int := 0
  restore : Bool := false
deriving DecidableEq

def nonceDiff (ivByte current : UInt8) : Int :=
  let diff : Int := ivByte.toNat - current.toNat
  if diff > 128 then diff - 256
  else if diff < -128 then diff + 256
  else diff

def stepNonce (decryptIv : Block) (ivByte : UInt8) : Option NonceStep :=
  let current := decryptIv.byte 0
  if current + 1 = ivByte then
    -- In-sequence: next expected packet
    if ivByte > current then
      some { iv := decryptIv.setFirst ivByte }
    else if ivByte < current then
      some { iv := (decryptIv.setFirst ivByte).carryIvBytes }
    else
      some { iv := decryptIv.setFirst ivByte }
  else
    -- Out-of-sequence: compute signed distance
    let diff := nonceDiff ivByte current
    if ivByte < current ∧ diff > -30 ∧ diff < 0 then
      some { iv := decryptIv.setFirst ivByte, late := 1, lost := -1, restore := true }
    else if ivByte > current ∧ diff > 0 ∧ diff < 30 then
      some { iv := decryptIv.setFirst ivByte, lost := ivByte.toNat - current.toNat - 1 }
    else
      none

/-- The 3-byte truncated tag of a packet matches under a nonce. -/
def TagMatches (cipher : Cipher) (iv : Block) (tag0 tag1 tag2 : UInt8)
    (ciphertext : List UInt8) : Prop :=
  let tag := (ocbDecrypt cipher ciphertext iv).2
  tag.byte 0 = tag0 ∧ tag.byte 1 = tag1 ∧ tag.byte 2 = tag2

instance (cipher : Cipher) (iv : Block) (tag0 tag1 tag2 : UInt8) (ciphertext : List UInt8) :
    Decidable (TagMatches cipher iv tag0 tag1 tag2 ciphertext) :=
  inferInstanceAs (Decidable (_ ∧ _ ∧ _))

def accept (self : Ocb2CryptState) (step : NonceStep) : Ocb2CryptState :=
  { self with
    decryptHistory := Function.update self.decryptHistory (step.iv.byte 0) (step.iv.byte 1)
    -- Late packet: restore IV to where it was (don't advance)
    decryptIv := if step.restore then self.decryptIv else step.iv
    stats := self.stats.record step.late step.lost }

def decrypt (self : Ocb2CryptState) (data : List UInt8) :
    Except Error (List UInt8) × Ocb2CryptState :=
  if !self.initialized then
    (.error (.invalidState "OCB2 not initialized"), self)
  else
    match data with
    | ivByte :: tag0 :: tag1 :: tag2 :: ciphertext =>
        let saveIv := self.decryptIv
        match stepNonce self.decryptIv ivByte with
        | none =>
            (.error (.invalidState "OCB2 nonce out of range"), { self with decryptIv := saveIv })
        | some step =>
            let moved := { self with decryptIv := step.iv }
            if moved.decryptHistory (moved.decryptIv.byte 0) = moved.decryptIv.byte 1 then
              (.error (.invalidState "OCB2 replay detected"), { moved with decryptIv := saveIv })
            else if ¬ TagMatches moved.cipher moved.decryptIv tag0 tag1 tag2 ciphertext then
              (.error (.invalidState "OCB2 authentication failed"),
                { moved with decryptIv := saveIv })
            else
              (.ok (ocbDecrypt moved.cipher ciphertext moved.decryptIv).1, self.accept step)
    | _ => (.error (.invalidState "UDP packet too short for OCB2 header"), self)

def nonceOf (self : Ocb2CryptState) : List UInt8 → Option NonceStep
  | ivByte :: _ => stepNonce self.decryptIv ivByte
  | [] => none

/-! ## What the operations do -/

theorem setKey_eq_ok_iff {aes : Aes128} {self self' : Ocb2CryptState}
    {key clientNonce serverNonce : List UInt8} :
    self.setKey aes key clientNonce serverNonce = .ok self' ↔
      ∃ (k c s : Block), k.bytes = key ∧ c.bytes = clientNonce ∧ s.bytes = serverNonce ∧
        self' = self.install aes k c s := by
  unfold setKey Block.ofBytes?
  constructor
  · intro h
    split at h
    · cases h
    · split at h
      · rename_i hk _ _ _ _ hc hs
        simp only [Option.dite_none_right_eq_some, Option.some.injEq] at hk hc hs
        obtain ⟨_, rfl⟩ := hk
        obtain ⟨_, rfl⟩ := hc
        obtain ⟨_, rfl⟩ := hs
        exact ⟨_, _, _, rfl, rfl, rfl, by simpa using h.symm⟩
      · cases h
  · rintro ⟨k, c, s, rfl, rfl, rfl, rfl⟩
    simp

theorem encrypt_of_initialized {self : Ocb2CryptState} (h : self.initialized = true)
    (plaintext : List UInt8) :
    self.encrypt plaintext =
      (.ok (sealPacket self.cipher self.encryptIv.incrIv plaintext),
        { self with encryptIv := self.encryptIv.incrIv }) := by
  simp [encrypt, h]

theorem decrypt_cases (self : Ocb2CryptState) (data : List UInt8) :
    (∃ err, self.decrypt data = (.error err, self)) ∨
      ∃ ivByte tag0 tag1 tag2 ciphertext step,
        data = ivByte :: tag0 :: tag1 :: tag2 :: ciphertext ∧
        stepNonce self.decryptIv ivByte = some step ∧
        self.decryptHistory (step.iv.byte 0) ≠ step.iv.byte 1 ∧
        TagMatches self.cipher step.iv tag0 tag1 tag2 ciphertext ∧
        self.decrypt data = (.ok (ocbDecrypt self.cipher ciphertext step.iv).1,
          self.accept step) := by
  unfold decrypt
  split
  · exact .inl ⟨_, rfl⟩
  · split
    · rename_i ivByte tag0 tag1 tag2 ciphertext
      simp only
      split
      · exact .inl ⟨_, rfl⟩
      · rename_i step hstep
        split
        · exact .inl ⟨_, rfl⟩
        · rename_i hhistory
          split
          · exact .inl ⟨_, rfl⟩
          · rename_i htag
            exact .inr ⟨ivByte, tag0, tag1, tag2, ciphertext, step, rfl, hstep, hhistory,
              not_not.mp htag, rfl⟩
    · exact .inl ⟨_, rfl⟩

theorem decrypt_error {self : Ocb2CryptState} {data : List UInt8} {err : Error}
    (h : (self.decrypt data).1 = .error err) : (self.decrypt data).2 = self := by
  rcases decrypt_cases self data with ⟨_, herr⟩ | ⟨_, _, _, _, _, _, _, _, _, _, hok⟩
  · rw [herr]
  · rw [hok] at h
    cases h

theorem decrypt_rejects {self : Ocb2CryptState} {ivByte : UInt8} {rest : List UInt8}
    (h : ∀ step, stepNonce self.decryptIv ivByte = some step →
      self.decryptHistory (step.iv.byte 0) = step.iv.byte 1) :
    ∃ err, self.decrypt (ivByte :: rest) = (.error err, self) := by
  rcases decrypt_cases self (ivByte :: rest) with
    herr | ⟨_, _, _, _, _, step, hdata, hstep, hnew, -⟩
  · exact herr
  · obtain ⟨rfl, -⟩ := List.cons.inj hdata
    exact absurd (h step hstep) hnew

theorem tagMatches_sealPacket (cipher : Cipher) (iv : Block) (plaintext : List UInt8) :
    TagMatches cipher iv ((ocbEncrypt cipher plaintext iv).2.byte 0)
      ((ocbEncrypt cipher plaintext iv).2.byte 1) ((ocbEncrypt cipher plaintext iv).2.byte 2)
      (ocbEncrypt cipher plaintext iv).1 := by
  simp [TagMatches, ocbDecrypt_ocbEncrypt]

theorem decrypt_sealPacket {self : Ocb2CryptState} (hinit : self.initialized = true)
    {iv : Block} {step : NonceStep} (hstep : stepNonce self.decryptIv (iv.byte 0) = some step)
    (hiv : step.iv = iv) (hhistory : self.decryptHistory (iv.byte 0) ≠ iv.byte 1)
    (plaintext : List UInt8) :
    self.decrypt (sealPacket self.cipher iv plaintext) = (.ok plaintext, self.accept step) := by
  have htag := tagMatches_sealPacket self.cipher iv plaintext
  simp only [decrypt, sealPacket, hinit, hstep, hiv, hhistory, htag]
  simp [ocbDecrypt_ocbEncrypt]

/-- Every plaintext comes back from its ciphertext under the same nonce, with the tag it was
sealed with, and a receiver that finds this nonce and has not recorded it accepts the packet. -/
theorem ocb_round_trip (cipher : Cipher) (nonce : Block) (plain : List UInt8) :
    ocbDecrypt cipher (ocbEncrypt cipher plain nonce).1 nonce =
        (plain, (ocbEncrypt cipher plain nonce).2) ∧
      TagMatches cipher nonce ((ocbEncrypt cipher plain nonce).2.byte 0)
        ((ocbEncrypt cipher plain nonce).2.byte 1) ((ocbEncrypt cipher plain nonce).2.byte 2)
        (ocbEncrypt cipher plain nonce).1 ∧
      ∀ (self : Ocb2CryptState) (step : NonceStep),
        self.initialized = true → self.cipher = cipher →
        stepNonce self.decryptIv (nonce.byte 0) = some step → step.iv = nonce →
        self.decryptHistory (nonce.byte 0) ≠ nonce.byte 1 →
        self.decrypt (sealPacket cipher nonce plain) = (.ok plain, self.accept step) := by
  refine ⟨ocbDecrypt_ocbEncrypt cipher plain nonce, tagMatches_sealPacket cipher nonce plain, ?_⟩
  intro self step hinit hcipher hstep hiv hhistory
  rw [← hcipher]
  exact decrypt_sealPacket hinit hstep hiv hhistory plain

/-! ## The nonce as a counter -/

theorem toNat_lt_iff {a b : UInt8} : a < b ↔ a.toNat < b.toNat := UInt8.lt_iff_toNat_lt

/-- The next packet in sequence advances the counter by one. -/
theorem stepNonce_next {iv : Block} {ivByte : UInt8}
    (h : ivByte.toNat = (iv.leNat + 1) % 256) :
    ∃ step, stepNonce iv ivByte = some step ∧ step.iv.leNat = (iv.leNat + 1) % 2 ^ 128 ∧
      step.restore = false ∧ step.late = 0 ∧ step.lost = 0 := by
  have hcurrent := iv.toNat_byte_zero
  have hlt := iv.leNat_lt
  have hsucc := Lib.Bytes.toNat_add_one (iv.byte 0)
  have hnext : iv.byte 0 + 1 = ivByte := by
    apply UInt8.toNat_inj.mp
    omega
  unfold stepNonce
  simp only [hnext, if_true]
  by_cases hwrap : iv.leNat % 256 = 255
  · have hnot : ¬ ivByte > iv.byte 0 := by
      rw [gt_iff_lt, toNat_lt_iff]
      omega
    have hcarry : ivByte < iv.byte 0 := by
      rw [toNat_lt_iff]
      omega
    rw [if_neg hnot, if_pos hcarry]
    refine ⟨_, rfl, ?_, rfl, rfl, rfl⟩
    simp only [Block.leNat_carryIvBytes, Block.leNat_setFirst]
    omega
  · have hgt : ivByte > iv.byte 0 := by
      rw [gt_iff_lt, toNat_lt_iff]
      omega
    rw [if_pos hgt]
    refine ⟨_, rfl, ?_, rfl, rfl, rfl⟩
    simp only [Block.leNat_setFirst]
    omega

theorem stepNonce_other {iv : Block} {ivByte : UInt8}
    (h : ivByte.toNat ≠ (iv.leNat + 1) % 256) :
    stepNonce iv ivByte =
      if ivByte.toNat < iv.leNat % 256 ∧ iv.leNat % 256 < ivByte.toNat + 30 then
        some { iv := iv.setFirst ivByte, late := 1, lost := -1, restore := true }
      else if iv.leNat % 256 < ivByte.toNat ∧ ivByte.toNat < iv.leNat % 256 + 30 then
        some { iv := iv.setFirst ivByte, lost := ivByte.toNat - (iv.leNat % 256 : Nat) - 1 }
      else none := by
  have hcurrent := iv.toNat_byte_zero
  have hbyte := ivByte.toNat_lt
  have hsucc := Lib.Bytes.toNat_add_one (iv.byte 0)
  have hnext : ¬ iv.byte 0 + 1 = ivByte := by
    intro heq
    rw [heq] at hsucc
    omega
  have hlate : (ivByte < iv.byte 0 ∧ nonceDiff ivByte (iv.byte 0) > -30 ∧
      nonceDiff ivByte (iv.byte 0) < 0) ↔
      (ivByte.toNat < iv.leNat % 256 ∧ iv.leNat % 256 < ivByte.toNat + 30) := by
    rw [toNat_lt_iff, hcurrent]
    simp only [nonceDiff, hcurrent]
    split_ifs <;> omega
  have hskip : (ivByte > iv.byte 0 ∧ nonceDiff ivByte (iv.byte 0) > 0 ∧
      nonceDiff ivByte (iv.byte 0) < 30) ↔
      (iv.leNat % 256 < ivByte.toNat ∧ ivByte.toNat < iv.leNat % 256 + 30) := by
    rw [gt_iff_lt, toNat_lt_iff, hcurrent]
    simp only [nonceDiff, hcurrent]
    split_ifs <;> omega
  unfold stepNonce
  simp only [hnext, if_false, hlate, hskip, hcurrent]

theorem stepNonce_cases {iv : Block} {ivByte : UInt8} {step : NonceStep}
    (h : stepNonce iv ivByte = some step) :
    step.iv.byte 0 = ivByte ∧
      ((step.restore = false ∧ step.iv.leNat = (iv.leNat + 1) % 2 ^ 128) ∨
        (step.restore = true ∧ step.iv.leNat < iv.leNat ∧ iv.leNat < step.iv.leNat + 30) ∨
        (step.restore = false ∧ iv.leNat < step.iv.leNat ∧ step.iv.leNat < iv.leNat + 30)) := by
  have hbyte := ivByte.toNat_lt
  by_cases hnext : ivByte.toNat = (iv.leNat + 1) % 256
  · obtain ⟨step', hstep', hvalue, hrestore, -⟩ := stepNonce_next hnext
    obtain rfl : step' = step := Option.some.inj (hstep'.symm.trans h)
    refine ⟨?_, .inl ⟨hrestore, hvalue⟩⟩
    apply UInt8.toNat_inj.mp
    rw [Block.toNat_byte_zero, hvalue]
    omega
  · rw [stepNonce_other hnext] at h
    have hset : (iv.setFirst ivByte).byte 0 = ivByte := by
      apply UInt8.toNat_inj.mp
      rw [Block.toNat_byte_zero, Block.leNat_setFirst]
      omega
    split_ifs at h with hlate hskip
    · obtain rfl := Option.some.inj h
      refine ⟨hset, .inr (.inl ⟨rfl, ?_, ?_⟩)⟩ <;>
        · rw [Block.leNat_setFirst]
          omega
    · obtain rfl := Option.some.inj h
      refine ⟨hset, .inr (.inr ⟨rfl, ?_, ?_⟩)⟩ <;>
        · rw [Block.leNat_setFirst]
          omega

/-- The figures of a packet: a late one counts as late and takes back a loss, one ahead counts
those it skips. -/
theorem stepNonce_figures {iv : Block} {ivByte : UInt8} {step : NonceStep}
    (h : stepNonce iv ivByte = some step) :
    (step.restore = true → step.late = 1 ∧ step.lost = -1) ∧
      (step.restore = false → step.late = 0 ∧
        (step.iv.leNat = (iv.leNat + 1) % 2 ^ 128 → step.lost = 0) ∧
        (iv.leNat < step.iv.leNat → step.lost = step.iv.leNat - iv.leNat - 1)) := by
  by_cases hnext : ivByte.toNat = (iv.leNat + 1) % 256
  · obtain ⟨step', hstep', hvalue, hrestore, hlate, hlost⟩ := stepNonce_next hnext
    obtain rfl : step' = step := Option.some.inj (hstep'.symm.trans h)
    refine ⟨fun htrue => ?_, fun _ => ⟨hlate, fun _ => hlost, fun hlt => ?_⟩⟩
    · rw [hrestore] at htrue
      cases htrue
    · have hsucc : step'.iv.leNat = iv.leNat + 1 := by omega
      rw [hlost, hsucc]
      omega
  · rw [stepNonce_other hnext] at h
    have hbyte := ivByte.toNat_lt
    split_ifs at h with hlate hskip
    · obtain rfl := Option.some.inj h
      refine ⟨fun _ => ⟨rfl, rfl⟩, fun hfalse => ?_⟩
      cases hfalse
    · obtain rfl := Option.some.inj h
      refine ⟨fun htrue => ?_, fun _ => ⟨rfl, fun hsucc => ?_, fun hlt => ?_⟩⟩
      · cases htrue
      · rw [Block.leNat_setFirst] at hsucc
        omega
      · rw [Block.leNat_setFirst] at hlt ⊢
        show (ivByte.toNat - (iv.leNat % 256 : Nat) - 1 : Int) = _
        omega

theorem stepNonce_sameBlock {iv : Block} {n : Nat} (hblock : n / 256 = iv.leNat / 256)
    (hne : n ≠ iv.leNat) (hlate : iv.leNat < n + 30) (hskip : n < iv.leNat + 30) :
    ∃ step, stepNonce iv (UInt8.ofNat n) = some step ∧ step.iv.leNat = n ∧
      step.restore = decide (n < iv.leNat) := by
  have hlt := iv.leNat_lt
  have hbyte : (UInt8.ofNat n).toNat = n % 256 := UInt8.toNat_ofNat'
  by_cases hnext : (UInt8.ofNat n).toNat = (iv.leNat + 1) % 256
  · obtain ⟨step, hstep, hvalue, hrestore, -⟩ := stepNonce_next hnext
    refine ⟨step, hstep, by omega, ?_⟩
    rw [hrestore]
    symm
    rw [decide_eq_false_iff_not]
    omega
  · rw [stepNonce_other hnext]
    rcases Nat.lt_or_gt_of_ne hne with hlt' | hgt
    · rw [if_pos (by omega)]
      refine ⟨_, rfl, ?_, by simp [hlt']⟩
      rw [Block.leNat_setFirst]
      omega
    · rw [if_neg (by omega), if_pos (by omega)]
      refine ⟨_, rfl, ?_, by simp; omega⟩
      rw [Block.leNat_setFirst]
      omega

theorem stepNonce_otherBlock {iv : Block} {m n : Nat} (hiv : iv.leNat = m % 2 ^ 128)
    (hblock : n / 256 ≠ m / 256) (hnext : n ≠ m + 1) (hlate : m < n + 30) (hskip : n < m + 30) :
    stepNonce iv (UInt8.ofNat n) = none := by
  have hbyte : (UInt8.ofNat n).toNat = n % 256 := UInt8.toNat_ofNat'
  rw [stepNonce_other (by omega), if_neg (by omega), if_neg (by omega)]

end Ocb2CryptState

end FancyMumble.Transport.Ocb2
