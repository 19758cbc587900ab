import FancyMumble.Lib.Runs
import FancyMumble.Transport.Ocb2.CryptState

/-!
# Delivery over a lossy link

A sender and a receiver that were set up with the same key and matching nonces,
and a network that drops, delays and reorders the packets between them. Packets
are numbered from 1 in the order of their encryption.
-/

namespace FancyMumble.Transport.Ocb2

open Lib
open Lib.Runs (Along)

structure Link where
  sender : Ocb2CryptState
  receiver : Ocb2CryptState
  /-- The plaintexts with the packets they were sealed into. -/
  sent : List (List UInt8 × List UInt8)
  /-- The numbers of the packets delivered so far, the last one first. -/
  delivered : List Nat
  /-- Those of them that the receiver accepted. -/
  accepted : List Nat

inductive LinkEvent where
  | encrypt (plaintext : List UInt8)
  | deliver (index : Nat)
deriving DecidableEq

namespace Link

def start (sender receiver : Ocb2CryptState) : Link :=
  { sender, receiver, sent := [], delivered := [], accepted := [] }

def packet? (link : Link) : Nat → Option (List UInt8 × List UInt8)
  | 0 => none
  | index + 1 => link.sent[index]?

def highest (link : Link) : Nat := link.accepted.foldr max 0

def step (link : Link) : LinkEvent → Link
  | .encrypt plaintext =>
      match link.sender.encrypt plaintext with
      | (.ok packet, sender) => { link with sender, sent := link.sent ++ [(plaintext, packet)] }
      | (.error _, sender) => { link with sender }
  | .deliver index =>
      match link.packet? index with
      | none => link
      | some (_, packet) =>
          match link.receiver.decrypt packet with
          | (.ok _, receiver) =>
              { link with
                receiver
                delivered := index :: link.delivered
                accepted := index :: link.accepted }
          | (.error _, receiver) => { link with receiver, delivered := index :: link.delivered }

/-- Every packet is delivered at most once, and fewer than 30 packets ahead of or
behind the highest accepted one. -/
def InWindow (link : Link) : LinkEvent → Prop
  | .encrypt _ => True
  | .deliver index =>
      (link.packet? index).isSome ∧ index ∉ link.delivered ∧
        index < link.highest + 30 ∧ link.highest < index + 30

/-- A delivered packet is accepted, and decrypts to the plaintext it seals. -/
def Delivers (link : Link) : LinkEvent → Prop
  | .encrypt _ => True
  | .deliver index =>
      match link.packet? index with
      | none => False
      | some (plaintext, packet) => (link.receiver.decrypt packet).1 = .ok plaintext

/-- The replay record cannot take packet `index` for one it has seen: the last
accepted packet with its first nonce byte has another second byte, and where there
is none the initial record has. -/
def NotRecorded (base index : Nat) (accepted : List Nat) : Prop :=
  match accepted.find? (fun other => other % 256 = index % 256) with
  | some other => other % 65536 ≠ index % 65536
  | none => (base + index) / 256 % 256 ≠ 255 - base / 256 % 256

/-- The packets the receiver can place: the one right after the highest accepted
one, and those whose nonce differs from it in the first byte only. -/
def Placeable (base : Nat) (link : Link) : LinkEvent → Prop
  | .encrypt _ => True
  | .deliver index =>
      (index = link.highest + 1 ∨ (base + index) / 256 = (base + link.highest) / 256) ∧
        NotRecorded base index link.accepted

instance (link : Link) : ∀ event, Decidable (link.InWindow event)
  | .encrypt _ => inferInstanceAs (Decidable True)
  | .deliver index =>
      inferInstanceAs (Decidable ((link.packet? index).isSome ∧ index ∉ link.delivered ∧
        index < link.highest + 30 ∧ link.highest < index + 30))

instance (base index : Nat) (accepted : List Nat) :
    Decidable (NotRecorded base index accepted) := by
  unfold NotRecorded
  split <;> infer_instance

instance (base : Nat) (link : Link) : ∀ event, Decidable (link.Placeable base event)
  | .encrypt _ => inferInstanceAs (Decidable True)
  | .deliver index =>
      inferInstanceAs (Decidable ((index = link.highest + 1 ∨
        (base + index) / 256 = (base + link.highest) / 256) ∧
          NotRecorded base index link.accepted))

/-! ## The replay record -/

def recordedByte (base : Nat) (accepted : List Nat) (first : UInt8) : UInt8 :=
  match accepted.find? (fun other => UInt8.ofNat (base + other) = first) with
  | some other => UInt8.ofNat ((base + other) / 256)
  | none => ~~~ UInt8.ofNat (base / 256)

theorem recordedByte_cons (base index : Nat) (accepted : List Nat) :
    recordedByte base (index :: accepted) =
      Function.update (recordedByte base accepted) (UInt8.ofNat (base + index))
        (UInt8.ofNat ((base + index) / 256)) := by
  funext first
  by_cases h : UInt8.ofNat (base + index) = first
  · subst h
    simp [recordedByte]
  · rw [Function.update_of_ne (fun heq => h heq.symm)]
    rw [recordedByte, List.find?_cons_of_neg (by simpa using h), ← recordedByte]

theorem ofNat_eq_ofNat_iff {m n : Nat} : UInt8.ofNat m = UInt8.ofNat n ↔ m % 256 = n % 256 := by
  rw [← UInt8.toNat_inj, UInt8.toNat_ofNat', UInt8.toNat_ofNat']

theorem recordedByte_ne_iff (base index : Nat) (accepted : List Nat) :
    recordedByte base accepted (UInt8.ofNat (base + index)) ≠
        UInt8.ofNat ((base + index) / 256) ↔
      NotRecorded base index accepted := by
  have hfind : (fun other => decide (UInt8.ofNat (base + other) = UInt8.ofNat (base + index))) =
      fun other => decide (other % 256 = index % 256) := by
    funext other
    rw [decide_eq_decide, ofNat_eq_ofNat_iff]
    omega
  rw [recordedByte, NotRecorded, hfind]
  cases hother : accepted.find? (fun other => decide (other % 256 = index % 256)) with
  | none =>
      have hnot : (~~~ UInt8.ofNat (base / 256)).toNat = 255 - base / 256 % 256 := by
        rw [UInt8.toNat_not, UInt8.toNat_ofNat', UInt8.size]
      simp only [ne_eq, ← UInt8.toNat_inj, hnot, UInt8.toNat_ofNat']
      omega
  | some other =>
      have hmod : other % 256 = index % 256 := by simpa using List.find?_some hother
      simp only [ne_eq, ofNat_eq_ofNat_iff]
      omega

/-! ## The invariant -/

/-- What holds whatever was rejected: both ends agree on the key and on where the
counters are, and the accepted packets are some of the delivered ones. -/
structure Synced (cipher : Cipher) (base : Nat) (link : Link) : Prop where
  senderReady : link.sender.initialized = true
  senderCipher : link.sender.cipher = cipher
  senderIv : link.sender.encryptIv.leNat = (base + link.sent.length) % 2 ^ 128
  receiverReady : link.receiver.initialized = true
  receiverCipher : link.receiver.cipher = cipher
  receiverIv : link.receiver.decryptIv.leNat = (base + link.highest) % 2 ^ 128
  history : link.receiver.decryptHistory = recordedByte base link.accepted
  sealed : ∀ index plaintext packet, link.packet? index = some (plaintext, packet) →
    packet = Ocb2CryptState.sealPacket cipher (Block.ofLeNat (base + index)) plaintext
  accepted_subset : link.accepted ⊆ link.delivered

structure InStep (cipher : Cipher) (base : Nat) (link : Link) : Prop where
  senderReady : link.sender.initialized = true
  senderCipher : link.sender.cipher = cipher
  senderIv : link.sender.encryptIv.leNat = (base + link.sent.length) % 2 ^ 128
  receiverReady : link.receiver.initialized = true
  receiverCipher : link.receiver.cipher = cipher
  receiverIv : link.receiver.decryptIv.leNat = (base + link.highest) % 2 ^ 128
  history : link.receiver.decryptHistory = recordedByte base link.accepted
  sealed : ∀ index plaintext packet, link.packet? index = some (plaintext, packet) →
    packet = Ocb2CryptState.sealPacket cipher (Block.ofLeNat (base + index)) plaintext
  accepted_eq : link.accepted = link.delivered

theorem InStep.synced {cipher : Cipher} {base : Nat} {link : Link}
    (h : InStep cipher base link) : Synced cipher base link where
  senderReady := h.senderReady
  senderCipher := h.senderCipher
  senderIv := h.senderIv
  receiverReady := h.receiverReady
  receiverCipher := h.receiverCipher
  receiverIv := h.receiverIv
  history := h.history
  sealed := h.sealed
  accepted_subset := h.accepted_eq ▸ List.Subset.refl link.accepted

theorem Synced.inStep {cipher : Cipher} {base : Nat} {link : Link}
    (h : Synced cipher base link) (heq : link.accepted = link.delivered) :
    InStep cipher base link where
  senderReady := h.senderReady
  senderCipher := h.senderCipher
  senderIv := h.senderIv
  receiverReady := h.receiverReady
  receiverCipher := h.receiverCipher
  receiverIv := h.receiverIv
  history := h.history
  sealed := h.sealed
  accepted_eq := heq

theorem highest_eq_or_mem (link : Link) : link.highest = 0 ∨ link.highest ∈ link.accepted := by
  rw [highest]
  induction link.accepted with
  | nil => exact .inl rfl
  | cons index accepted ih =>
      rw [List.foldr_cons]
      rcases Nat.le_total index (accepted.foldr max 0) with hle | hle
      · rw [Nat.max_eq_right hle]
        exact ih.imp_right (List.mem_cons_of_mem _)
      · rw [Nat.max_eq_left hle]
        exact .inr List.mem_cons_self

theorem packet?_append {link : Link} {index : Nat} {plaintext packet : List UInt8}
    {pair : List UInt8 × List UInt8}
    (h : Link.packet? { link with sent := link.sent ++ [pair] } index = some (plaintext, packet)) :
    link.packet? index = some (plaintext, packet) ∨
      (index = link.sent.length + 1 ∧ pair = (plaintext, packet)) := by
  cases index with
  | zero => cases h
  | succ index =>
      simp only [packet?] at h ⊢
      rcases Nat.lt_or_ge index link.sent.length with hlt | hge
      · rw [List.getElem?_append_left hlt] at h
        exact .inl h
      · rw [List.getElem?_append_right hge] at h
        have hzero : index - link.sent.length = 0 := by
          by_contra hne
          rw [List.getElem?_eq_none (by simp; omega)] at h
          cases h
        rw [hzero] at h
        exact .inr ⟨by omega, by simpa using h⟩

theorem synced_encrypt {cipher : Cipher} {base : Nat} {link : Link}
    (h : Synced cipher base link) (plaintext : List UInt8) :
    Synced cipher base (link.step (.encrypt plaintext)) := by
  have hiv : link.sender.encryptIv.incrIv = Block.ofLeNat (base + (link.sent.length + 1)) := by
    apply Block.leNat_inj
    rw [Block.leNat_incrIv, h.senderIv, Block.leNat_ofLeNat]
    omega
  simp only [step, Ocb2CryptState.encrypt_of_initialized h.senderReady]
  refine ⟨h.senderReady, h.senderCipher, ?_, h.receiverReady, h.receiverCipher, h.receiverIv,
    h.history, ?_, h.accepted_subset⟩
  · simp only [Block.leNat_incrIv, h.senderIv, List.length_append, List.length_singleton]
    omega
  · intro index plaintext' packet hpacket
    rcases packet?_append hpacket with hold | ⟨rfl, hpair⟩
    · exact h.sealed index plaintext' packet hold
    · cases hpair
      rw [h.senderCipher, hiv]

/-- Where a placeable packet is found, and that no other packet of the window is. -/
theorem stepNonce_deliver {cipher : Cipher} {base : Nat} {link : Link}
    (h : Synced cipher base link) {index : Nat} (hwindow : link.InWindow (.deliver index)) :
    if index = link.highest + 1 ∨ (base + index) / 256 = (base + link.highest) / 256 then
      ∃ step, Ocb2CryptState.stepNonce link.receiver.decryptIv (UInt8.ofNat (base + index)) =
          some step ∧ step.iv = Block.ofLeNat (base + index) ∧
        step.restore = decide (index < link.highest)
    else
      Ocb2CryptState.stepNonce link.receiver.decryptIv (UInt8.ofNat (base + index)) = none := by
  obtain ⟨hsome, hfresh, hskip, hlate⟩ := hwindow
  have hiv := h.receiverIv
  have hpos : index ≠ 0 := by
    rintro rfl
    cases hsome
  have hne : index ≠ link.highest := by
    rintro rfl
    rcases link.highest_eq_or_mem with hzero | hmem
    · exact hpos hzero
    · exact hfresh (h.accepted_subset hmem)
  have hbyte : (UInt8.ofNat (base + index)).toNat = (base + index) % 256 := UInt8.toNat_ofNat'
  split_ifs with hplace
  · rcases hplace with hnext | hblock
    · have hbyte' : (UInt8.ofNat (base + index)).toNat =
          (link.receiver.decryptIv.leNat + 1) % 256 := by omega
      obtain ⟨step, hstep, hvalue, hrestore, -⟩ := Ocb2CryptState.stepNonce_next hbyte'
      refine ⟨step, hstep, ?_, ?_⟩
      · apply Block.leNat_inj
        rw [hvalue, Block.leNat_ofLeNat]
        omega
      · rw [hrestore]
        symm
        rw [decide_eq_false_iff_not]
        omega
    · have hmod : UInt8.ofNat (base + index) = UInt8.ofNat ((base + index) % 2 ^ 128) := by
        rw [ofNat_eq_ofNat_iff]
        omega
      have hblock' : (base + index) % 2 ^ 128 / 256 = link.receiver.decryptIv.leNat / 256 := by
        omega
      obtain ⟨step, hstep, hvalue, hrestore⟩ :=
        Ocb2CryptState.stepNonce_sameBlock hblock' (by omega) (by omega) (by omega)
      refine ⟨step, by rw [hmod, hstep], ?_, ?_⟩
      · apply Block.leNat_inj
        rw [hvalue, Block.leNat_ofLeNat]
      · rw [hrestore, decide_eq_decide]
        omega
  · rw [not_or] at hplace
    exact Ocb2CryptState.stepNonce_otherBlock hiv hplace.2 (by omega) (by omega) (by omega)

theorem decrypt_deliver {cipher : Cipher} {base : Nat} {link : Link}
    (h : Synced cipher base link) {index : Nat} (hwindow : link.InWindow (.deliver index))
    {plaintext packet : List UInt8} (hpacket : link.packet? index = some (plaintext, packet)) :
    if link.Placeable base (.deliver index) then
      ∃ step, Ocb2CryptState.stepNonce link.receiver.decryptIv (UInt8.ofNat (base + index)) =
          some step ∧ step.iv = Block.ofLeNat (base + index) ∧
        step.restore = decide (index < link.highest) ∧
        link.receiver.decrypt packet = (.ok plaintext, link.receiver.accept step)
    else
      ∃ err, link.receiver.decrypt packet = (.error err, link.receiver) := by
  have hnonce := stepNonce_deliver h hwindow
  have hrecord := recordedByte_ne_iff base index link.accepted
  have hpacket' := h.sealed index plaintext packet hpacket
  rw [← h.receiverCipher] at hpacket'
  rw [← h.history] at hrecord
  have hbyte := Block.byte_zero_ofLeNat (base + index)
  have hbyte' := Block.byte_one_ofLeNat (base + index)
  by_cases hplace : index = link.highest + 1 ∨
      (base + index) / 256 = (base + link.highest) / 256
  · rw [if_pos hplace] at hnonce
    obtain ⟨step, hstep, hiv, hrestore⟩ := hnonce
    by_cases hfree : NotRecorded base index link.accepted
    · rw [if_pos ⟨hplace, hfree⟩]
      refine ⟨step, hstep, hiv, hrestore, ?_⟩
      rw [hpacket']
      apply Ocb2CryptState.decrypt_sealPacket h.receiverReady _ hiv
      · rw [hbyte, hbyte']
        exact hrecord.mpr hfree
      · rw [hbyte]
        exact hstep
    · rw [if_neg (fun hboth => hfree hboth.2), hpacket']
      have hseen : link.receiver.decryptHistory (UInt8.ofNat (base + index)) =
          UInt8.ofNat ((base + index) / 256) := by
        by_contra hne
        exact hfree (hrecord.mp hne)
      apply Ocb2CryptState.decrypt_rejects
      intro step' hstep'
      rw [hbyte, hstep] at hstep'
      obtain rfl := Option.some.inj hstep'
      rw [hiv, hbyte, hbyte', hseen]
  · rw [if_neg hplace] at hnonce
    rw [if_neg (fun hboth => hplace hboth.1), hpacket']
    apply Ocb2CryptState.decrypt_rejects
    intro step' hstep'
    rw [hbyte, hnonce] at hstep'
    cases hstep'

theorem delivers_iff {cipher : Cipher} {base : Nat} {link : Link} (h : Synced cipher base link)
    {event : LinkEvent} (hwindow : link.InWindow event) :
    link.Delivers event ↔ link.Placeable base event := by
  cases event with
  | encrypt plaintext => exact Iff.rfl
  | deliver index =>
      obtain ⟨⟨plaintext, packet⟩, hpacket⟩ := Option.isSome_iff_exists.mp hwindow.1
      have houtcome := decrypt_deliver h hwindow hpacket
      rw [Delivers, hpacket]
      split_ifs at houtcome with hplace
      · obtain ⟨step, -, -, -, hok⟩ := houtcome
        simp [hok, hplace]
      · obtain ⟨err, herr⟩ := houtcome
        simp [herr, hplace]

theorem synced_accepted {cipher : Cipher} {base : Nat} {link : Link}
    (h : Synced cipher base link) {index : Nat} {step : Ocb2CryptState.NonceStep}
    (hiv : step.iv = Block.ofLeNat (base + index))
    (hrestore : step.restore = decide (index < link.highest)) :
    Synced cipher base
      { link with
        receiver := link.receiver.accept step
        delivered := index :: link.delivered
        accepted := index :: link.accepted } := by
  refine ⟨h.senderReady, h.senderCipher, h.senderIv, h.receiverReady, h.receiverCipher, ?_, ?_,
    h.sealed, List.cons_subset_cons index h.accepted_subset⟩
  · change (link.receiver.accept step).decryptIv.leNat = (base + max index link.highest) % 2 ^ 128
    simp only [Ocb2CryptState.accept, hrestore]
    by_cases hlate : index < link.highest
    · rw [Nat.max_eq_right hlate.le, if_pos (decide_eq_true hlate)]
      exact h.receiverIv
    · rw [Nat.max_eq_left (by omega), if_neg (by simpa using hlate), hiv,
        Block.leNat_ofLeNat]
  · rw [recordedByte_cons, ← h.history]
    simp only [Ocb2CryptState.accept, hiv, Block.byte_zero_ofLeNat, Block.byte_one_ofLeNat]

theorem synced_rejected {cipher : Cipher} {base : Nat} {link : Link}
    (h : Synced cipher base link) (index : Nat) :
    Synced cipher base { link with delivered := index :: link.delivered } :=
  ⟨h.senderReady, h.senderCipher, h.senderIv, h.receiverReady, h.receiverCipher, h.receiverIv,
    h.history, h.sealed, List.subset_cons_of_subset index h.accepted_subset⟩

theorem step_deliver {cipher : Cipher} {base : Nat} {link : Link} (h : Synced cipher base link)
    {index : Nat} (hwindow : link.InWindow (.deliver index)) :
    if link.Placeable base (.deliver index) then
      ∃ step, Ocb2CryptState.stepNonce link.receiver.decryptIv (UInt8.ofNat (base + index)) =
          some step ∧ step.iv = Block.ofLeNat (base + index) ∧
        step.restore = decide (index < link.highest) ∧
        link.step (.deliver index) =
          { link with
            receiver := link.receiver.accept step
            delivered := index :: link.delivered
            accepted := index :: link.accepted }
    else
      link.step (.deliver index) = { link with delivered := index :: link.delivered } := by
  obtain ⟨⟨plaintext, packet⟩, hpacket⟩ := Option.isSome_iff_exists.mp hwindow.1
  have houtcome := decrypt_deliver h hwindow hpacket
  split_ifs at houtcome ⊢ with hplace
  · obtain ⟨step, hstep, hiv, hrestore, hok⟩ := houtcome
    refine ⟨step, hstep, hiv, hrestore, ?_⟩
    simp only [Link.step, hpacket, hok]
  · obtain ⟨err, herr⟩ := houtcome
    simp only [Link.step, hpacket, herr]

theorem synced_step {cipher : Cipher} {base : Nat} {link : Link} {event : LinkEvent}
    (h : Synced cipher base link) (hwindow : link.InWindow event) :
    Synced cipher base (link.step event) := by
  cases event with
  | encrypt plaintext => exact synced_encrypt h plaintext
  | deliver index =>
      have hdone := step_deliver h hwindow
      split_ifs at hdone with hplace
      · obtain ⟨step, -, hiv, hrestore, hlink⟩ := hdone
        rw [hlink]
        exact synced_accepted h hiv hrestore
      · rw [hdone]
        exact synced_rejected h index

theorem inStep_step {cipher : Cipher} {base : Nat} {link : Link} {event : LinkEvent}
    (h : InStep cipher base link) (hwindow : link.InWindow event)
    (hplace : link.Placeable base event) : InStep cipher base (link.step event) := by
  apply (synced_step h.synced hwindow).inStep
  cases event with
  | encrypt plaintext =>
      simp only [Link.step, Ocb2CryptState.encrypt_of_initialized h.senderReady]
      exact h.accepted_eq
  | deliver index =>
      have hdone := step_deliver h.synced hwindow
      rw [if_pos hplace] at hdone
      obtain ⟨step, -, -, -, hlink⟩ := hdone
      rw [hlink]
      exact congrArg (index :: ·) h.accepted_eq

theorem inStep_start {aes : Aes128} {s r sender receiver : Ocb2CryptState}
    {key nonce other other' : List UInt8}
    (hsender : s.setKey aes key nonce other = .ok sender)
    (hreceiver : r.setKey aes key other' nonce = .ok receiver) :
    ∃ cipher, InStep cipher (Bytes.leNat nonce) (start sender receiver) := by
  obtain ⟨k, c, o, rfl, rfl, rfl, rfl⟩ := Ocb2CryptState.setKey_eq_ok_iff.mp hsender
  obtain ⟨k', o', c', hk, rfl, hc, rfl⟩ := Ocb2CryptState.setKey_eq_ok_iff.mp hreceiver
  obtain rfl := Block.ext hk
  obtain rfl := Block.ext hc
  refine ⟨aes k', rfl, rfl, ?_, rfl, rfl, ?_, ?_, ?_, rfl⟩
  · exact (Nat.mod_eq_of_lt c'.leNat_lt).symm
  · exact (Nat.mod_eq_of_lt c'.leNat_lt).symm
  · funext first
    simp only [start, Ocb2CryptState.install, recordedByte, List.find?_nil]
    congr 1
    apply UInt8.toNat_inj.mp
    rw [Block.toNat_byte_one, UInt8.toNat_ofNat']
    rfl
  · intro index plaintext packet hpacket
    cases index <;> simp [start, packet?] at hpacket

/-! ## Whole runs -/

theorem along_delivers_iff {cipher : Cipher} {base : Nat} {link : Link}
    (hlink : InStep cipher base link) {events : List LinkEvent}
    (hwindow : Along step InWindow link events) :
    Along step Delivers link events ↔ Along step (Placeable base) link events := by
  refine Runs.along_iff_along ?_ ?_ hlink hwindow
  · exact fun _ _ h hw => delivers_iff h.synced hw
  · exact fun _ _ h hw hp => inStep_step h hw hp

/-- In every run within the window, all deliveries succeed exactly when every
delivered packet could be placed. -/
theorem delivers_run_iff {aes : Aes128} {s r sender receiver : Ocb2CryptState}
    {key nonce other other' : List UInt8}
    (hsender : s.setKey aes key nonce other = .ok sender)
    (hreceiver : r.setKey aes key other' nonce = .ok receiver) {events : List LinkEvent}
    (hwindow : Along step InWindow (start sender receiver) events) :
    Along step Delivers (start sender receiver) events ↔
      Along step (Placeable (Bytes.leNat nonce)) (start sender receiver) events := by
  obtain ⟨cipher, hstart⟩ := inStep_start hsender hreceiver
  exact along_delivers_iff hstart hwindow

section Example

def exampleState : Ocb2CryptState :=
  (Ocb2CryptState.new fun _ => Equiv.refl Block).install (fun _ => Equiv.refl Block)
    Block.zero (Block.ofLeNat 250) (Block.ofLeNat 250)

theorem setKey_exampleState :
    (Ocb2CryptState.new fun _ => Equiv.refl Block).setKey (fun _ => Equiv.refl Block)
      Block.zero.bytes (Block.ofLeNat 250).bytes (Block.ofLeNat 250).bytes = .ok exampleState :=
  Ocb2CryptState.setKey_eq_ok_iff.mpr ⟨_, _, _, rfl, rfl, rfl, rfl⟩

/-- Seven packets: the second arrives late, the fourth is lost, and the first nonce byte
wraps with the sixth. -/
def exampleRun : List LinkEvent :=
  List.replicate 7 (.encrypt [1]) ++
    [.deliver 1, .deliver 3, .deliver 2, .deliver 5, .deliver 6, .deliver 7]

theorem delivers_run_iff_example :
    Along step Delivers (start exampleState exampleState) exampleRun :=
  (delivers_run_iff setKey_exampleState setKey_exampleState (by decide)).mpr (by decide)

/-- Six lost packets before a wrap of the first nonce byte: the seventh packet is
within the window and is rejected. -/
theorem loses_packet_after_wrap :
    ¬ ∀ (aes : Aes128) (s r sender receiver : Ocb2CryptState)
      (key nonce other other' : List UInt8) (events : List LinkEvent),
      s.setKey aes key nonce other = .ok sender →
      r.setKey aes key other' nonce = .ok receiver →
      Along step InWindow (start sender receiver) events →
      Along step Delivers (start sender receiver) events := by
  intro h
  let events : List LinkEvent := List.replicate 7 (.encrypt []) ++ [.deliver 7]
  have hwindow : Along step InWindow (start exampleState exampleState) events := by decide
  have hdelivers := h _ _ _ _ _ _ _ _ _ events setKey_exampleState setKey_exampleState hwindow
  obtain ⟨cipher, hstart⟩ := inStep_start setKey_exampleState setKey_exampleState
  have hplace := (along_delivers_iff hstart hwindow).mp hdelivers
  revert hplace
  decide

end Example

end Link

end FancyMumble.Transport.Ocb2
