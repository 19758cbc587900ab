import FancyMumble.Client.Udp
import FancyMumble.Lib.Runs

/-!
# Nonce freshness over a connection

Every start of the UDP transport sets both counters to the nonces it is given.
Over whole runs of a connection the encryption nonces stay distinct, and packets
from before a force-TCP toggle stay rejected, as long as each start is given
nonces that its key has not been used near.
-/

namespace FancyMumble.Client

open Transport.Ocb2
open Lib
open Lib.Runs (Along)

/-- A connection with the history of its packets, each named by the key and the
nonce it was sealed under. -/
structure Connection where
  client : UdpClient
  /-- The packets the client encrypted. -/
  encrypted : List (Block × Block)
  /-- The server packets the client accepted. -/
  accepted : List (Block × Block)
  /-- The server packets it accepted before the last force-TCP toggle. -/
  retired : List (Block × Block)

namespace Connection

def start (forceTcp : Bool) : Connection :=
  { client := UdpClient.start forceTcp, encrypted := [], accepted := [], retired := [] }

def Toggles (conn : Connection) : UdpEvent → Prop
  | .forceTcpChanged newForce _ => newForce ≠ conn.client.forceTcp
  | _ => False

instance (conn : Connection) : ∀ event, Decidable (conn.Toggles event)
  | .forceTcpChanged newForce _ => inferInstanceAs (Decidable (newForce ≠ _))
  | .cryptSetup _ _ | .sendRaw _ | .readerPoll _ _ _ | .readerEnded =>
      inferInstanceAs (Decidable False)

def originOf : UdpEvent → List (Block × Block)
  | .readerPoll (some datagram) _ _ => datagram.origin.toList
  | _ => []

def Accepts (aes : Aes128) (conn : Connection) (event : UdpEvent) : Prop :=
  (conn.client.step aes event).2.any UdpEffect.isAccepted = true

instance (aes : Aes128) (conn : Connection) (event : UdpEvent) :
    Decidable (conn.Accepts aes event) :=
  inferInstanceAs (Decidable (_ = true))

def step (aes : Aes128) (conn : Connection) (event : UdpEvent) : Connection where
  client := (conn.client.step aes event).1
  encrypted := (conn.client.step aes event).2.filterMap UdpEffect.encryption? ++ conn.encrypted
  accepted := (if conn.Accepts aes event then originOf event else []) ++ conn.accepted
  retired := if conn.Toggles event then conn.accepted else conn.retired

/-- No packet from before a toggle is accepted again. -/
def NotReplayed (aes : Aes128) (conn : Connection) (event : UdpEvent) : Prop :=
  conn.Accepts aes event → ∀ origin ∈ originOf event, origin ∉ conn.retired

/-- The tag check passes exactly for the key and nonce a packet was sealed under. -/
def IdealTag (conn : Connection) : UdpEvent → Prop
  | .readerPoll (some ⟨ivByte :: tag0 :: tag1 :: tag2 :: ciphertext, origin⟩) _ _ =>
      ∀ reader ∈ conn.client.udpReader, reader.running = true → reader.serverNonceRx = [] →
        ∀ step ∈ Ocb2CryptState.stepNonce reader.crypt.decryptIv ivByte,
          (Ocb2CryptState.TagMatches reader.crypt.cipher step.iv tag0 tag1 tag2 ciphertext ↔
            origin = some (reader.crypt.rawKey, step.iv))
  | _ => True

instance (conn : Connection) (event : UdpEvent) : Decidable (conn.IdealTag event) := by
  unfold IdealTag
  split <;> infer_instance

/-! ## Unused nonces -/

def Clear (used : List (Block × Block)) (key : Block) (iv n : Nat) : Prop :=
  ∀ i < n, (key, Block.ofLeNat (iv + 1 + i)) ∉ used

/-- No packet in the list is one that a reader can accept within `n` datagrams from
the nonce `iv`: each moves it by less than 30. -/
def Apart (packets : List (Block × Block)) (key : Block) (iv n : Nat) : Prop :=
  ∀ d < 30 * n + 30, (key, Block.ofLeNat (iv + (2 ^ 128 - 30) + d)) ∉ packets

def FreshFor (n : Nat) (used packets : List (Block × Block)) (crypto : StoredCrypto) : Prop :=
  ∀ k ∈ Block.ofBytes? crypto.key, ∀ c ∈ Block.ofBytes? crypto.clientNonce,
    ∀ s ∈ Block.ofBytes? crypto.serverNonce,
      Clear used k c.leNat n ∧ Apart packets k s.leNat n

/-- The condition on an event that gives the transport a nonce to count from: a full
`CryptSetup`, a toggle that starts UDP again, and a resync of the reader. -/
def GivesFreshNonces (n : Nat) (conn : Connection) : UdpEvent → Prop
  | .cryptSetup setup connection =>
      match setup.key, setup.clientNonce, setup.serverNonce with
      | some key, some clientNonce, some serverNonce =>
          conn.client.forceTcp = false → connection.isSome →
            FreshFor n conn.encrypted conn.retired { key, clientNonce, serverNonce }
      | _, _, some serverNonce =>
          ∀ reader ∈ conn.client.udpReader, reader.HasRoom →
            ∀ s ∈ Block.ofBytes? serverNonce, Apart conn.retired reader.crypt.rawKey s.leNat n
      | _, _, none => True
  | .forceTcpChanged newForce connection =>
      newForce ≠ conn.client.forceTcp → newForce = false → connection.isSome →
        ∀ crypto ∈ conn.client.storedCrypto, FreshFor n conn.encrypted conn.accepted crypto
  | _ => True

instance (used : List (Block × Block)) (key : Block) (iv n : Nat) :
    Decidable (Clear used key iv n) :=
  inferInstanceAs (Decidable (∀ i < n, _))

instance (packets : List (Block × Block)) (key : Block) (iv n : Nat) :
    Decidable (Apart packets key iv n) :=
  inferInstanceAs (Decidable (∀ d < 30 * n + 30, _))

instance (n : Nat) (used packets : List (Block × Block)) (crypto : StoredCrypto) :
    Decidable (FreshFor n used packets crypto) :=
  inferInstanceAs (Decidable (∀ k ∈ Block.ofBytes? crypto.key, _))

instance (n : Nat) (conn : Connection) (event : UdpEvent) :
    Decidable (conn.GivesFreshNonces n event) := by
  unfold GivesFreshNonces
  split
  · split <;> infer_instance
  · infer_instance
  · infer_instance

theorem Clear.mono {used : List (Block × Block)} {key : Block} {iv m n : Nat}
    (h : Clear used key iv n) (hmn : m ≤ n) : Clear used key iv m :=
  fun i hi => h i (by omega)

theorem Apart.mono {packets : List (Block × Block)} {key : Block} {iv m n : Nat}
    (h : Apart packets key iv n) (hmn : m ≤ n) : Apart packets key iv m :=
  fun d hd => h d (by omega)

theorem ofLeNat_eq_iff {m n : Nat} :
    Block.ofLeNat m = Block.ofLeNat n ↔ m % 2 ^ 128 = n % 2 ^ 128 := by
  constructor
  · intro h
    have := congrArg Block.leNat h
    simpa using this
  · intro h
    apply Block.leNat_inj
    simpa using h

theorem ofLeNat_succ_leNat (iv : Block) : Block.ofLeNat (iv.leNat + 1) = iv.incrIv := by
  apply Block.leNat_inj
  rw [Block.leNat_ofLeNat, Block.leNat_incrIv]

theorem Clear.next {used : List (Block × Block)} {key iv : Block} {n : Nat}
    (hn : n + 1 ≤ 2 ^ 128) (h : Clear used key iv.leNat (n + 1)) :
    (key, iv.incrIv) ∉ used ∧ Clear ((key, iv.incrIv) :: used) key iv.incrIv.leNat n := by
  refine ⟨?_, fun i hi hmem => ?_⟩
  · rw [← ofLeNat_succ_leNat]
    exact h 0 (by omega)
  · have hshift : Block.ofLeNat (iv.incrIv.leNat + 1 + i) =
        Block.ofLeNat (iv.leNat + 1 + (i + 1)) := by
      rw [ofLeNat_eq_iff, Block.leNat_incrIv]
      omega
    rw [hshift] at hmem
    rcases List.mem_cons.mp hmem with heq | hold
    · have hiv := (Prod.mk.injEq _ _ _ _ ▸ heq).2
      rw [← ofLeNat_succ_leNat, ofLeNat_eq_iff] at hiv
      omega
    · exact h (i + 1) (by omega) hold

theorem Apart.accept {packets : List (Block × Block)} {key : Block} {state : Ocb2CryptState}
    {n : Nat} (h : Apart packets key state.decryptIv.leNat (n + 1)) {ivByte : UInt8}
    {step : Ocb2CryptState.NonceStep}
    (hstep : Ocb2CryptState.stepNonce state.decryptIv ivByte = some step) :
    (key, step.iv) ∉ packets ∧ Apart packets key (state.accept step).decryptIv.leNat n := by
  have hlt := state.decryptIv.leNat_lt
  have hiv := step.iv.ofLeNat_leNat
  obtain ⟨-, ⟨hrestore, hvalue⟩ | ⟨hrestore, hlate, hwindow⟩ | ⟨hrestore, hskip, hwindow⟩⟩ :=
    Ocb2CryptState.stepNonce_cases hstep
  · simp only [Ocb2CryptState.accept, hrestore, Bool.false_eq_true, if_false]
    constructor
    · have heq : step.iv = Block.ofLeNat (state.decryptIv.leNat + (2 ^ 128 - 30) + 31) := by
        rw [← hiv, hvalue, ofLeNat_eq_iff]
        omega
      rw [heq]
      exact h 31 (by omega)
    · intro d hd
      have heq : Block.ofLeNat (step.iv.leNat + (2 ^ 128 - 30) + d) =
          Block.ofLeNat (state.decryptIv.leNat + (2 ^ 128 - 30) + (d + 1)) := by
        rw [hvalue, ofLeNat_eq_iff]
        omega
      rw [heq]
      exact h (d + 1) (by omega)
  · simp only [Ocb2CryptState.accept, hrestore, if_true]
    refine ⟨?_, h.mono (by omega)⟩
    have heq : step.iv = Block.ofLeNat (state.decryptIv.leNat + (2 ^ 128 - 30) +
        (step.iv.leNat + 30 - state.decryptIv.leNat)) := by
      rw [← hiv, ofLeNat_eq_iff, hiv]
      omega
    rw [heq]
    exact h _ (by omega)
  · simp only [Ocb2CryptState.accept, hrestore, Bool.false_eq_true, if_false]
    constructor
    · have heq : step.iv = Block.ofLeNat (state.decryptIv.leNat + (2 ^ 128 - 30) +
          (step.iv.leNat + 30 - state.decryptIv.leNat)) := by
        rw [← hiv, ofLeNat_eq_iff, hiv]
        omega
      rw [heq]
      exact h _ (by omega)
    · intro d hd
      have heq : Block.ofLeNat (step.iv.leNat + (2 ^ 128 - 30) + d) =
          Block.ofLeNat (state.decryptIv.leNat + (2 ^ 128 - 30) +
            (d + (step.iv.leNat - state.decryptIv.leNat))) := by
        rw [ofLeNat_eq_iff]
        omega
      rw [heq]
      exact h _ (by omega)

/-! ## The invariant -/

def ReaderApart (retired : List (Block × Block)) (reader : UdpReader) (n : Nat) : Prop :=
  Apart retired reader.crypt.rawKey reader.crypt.decryptIv.leNat n ∧
    ∀ nonce ∈ reader.serverNonceRx, ∀ s ∈ Block.ofBytes? nonce,
      Apart retired reader.crypt.rawKey s.leNat n

structure Fresh (n : Nat) (conn : Connection) : Prop where
  tornDown : conn.client.forceTcp = true →
    conn.client.udpSender = none ∧ conn.client.udpReader = none
  senderReady : ∀ crypt ∈ conn.client.udpSender, crypt.initialized = true ∧
    Clear conn.encrypted crypt.rawKey crypt.encryptIv.leNat n
  readerApart : ∀ reader ∈ conn.client.udpReader, ReaderApart conn.retired reader n
  nodup : conn.encrypted.Nodup

theorem ReaderApart.mono {retired : List (Block × Block)} {reader : UdpReader} {m n : Nat}
    (h : ReaderApart retired reader n) (hmn : m ≤ n) : ReaderApart retired reader m :=
  ⟨h.1.mono hmn, fun nonce hnonce s hs => (h.2 nonce hnonce s hs).mono hmn⟩

theorem Fresh.mono {m n : Nat} {conn : Connection} (h : Fresh n conn) (hmn : m ≤ n) :
    Fresh m conn where
  tornDown := h.tornDown
  senderReady := fun crypt hcrypt =>
    ⟨(h.senderReady crypt hcrypt).1, (h.senderReady crypt hcrypt).2.mono hmn⟩
  readerApart := fun reader hreader => (h.readerApart reader hreader).mono hmn
  nodup := h.nodup

theorem fresh_start (n : Nat) (forceTcp : Bool) : Fresh n (start forceTcp) where
  tornDown := fun _ => ⟨rfl, rfl⟩
  senderReady := fun _ h => by cases h
  readerApart := fun _ h => by cases h
  nodup := List.nodup_nil

theorem Fresh.accepted_congr {n : Nat} {client : UdpClient}
    {encrypted accepted accepted' retired : List (Block × Block)}
    (h : Fresh n ⟨client, encrypted, accepted, retired⟩) :
    Fresh n ⟨client, encrypted, accepted', retired⟩ :=
  ⟨h.tornDown, h.senderReady, h.readerApart, h.nodup⟩

/-! ## Single steps -/

theorem fresh_sendRaw {n : Nat} {client : UdpClient}
    {encrypted accepted retired : List (Block × Block)}
    (h : Fresh (n + 1) ⟨client, encrypted, accepted, retired⟩) (hn : n + 1 ≤ 2 ^ 128)
    (payload : List UInt8) :
    Fresh n ⟨(client.sendRaw payload).1,
      (client.sendRaw payload).2.filterMap UdpEffect.encryption? ++ encrypted, accepted,
      retired⟩ := by
  cases hsender : client.udpSender with
  | none =>
      simp only [UdpClient.sendRaw, hsender]
      exact h.mono (by omega)
  | some crypt =>
      obtain ⟨hinit, hclear⟩ := h.senderReady crypt hsender
      obtain ⟨hnew, hrest⟩ := hclear.next hn
      rw [client.sendRaw_eq hsender hinit]
      refine ⟨?_, ?_, ?_, List.nodup_cons.mpr ⟨hnew, h.nodup⟩⟩
      · intro hforce
        have := (h.tornDown hforce).1
        rw [hsender] at this
        cases this
      · intro crypt' hcrypt'
        obtain rfl := Option.some.inj hcrypt'
        exact ⟨hinit, hrest⟩
      · exact (h.mono (by omega)).readerApart

theorem fresh_startUdp (aes : Aes128) {n : Nat} {client : UdpClient}
    {encrypted accepted retired : List (Block × Block)}
    (h : Fresh (n + 1) ⟨client, encrypted, accepted, retired⟩) (hn : n + 1 ≤ 2 ^ 128)
    (hforce : client.forceTcp = false) {crypto : StoredCrypto} {connection : Option (List UInt8)}
    (hfresh : connection.isSome → FreshFor (n + 1) encrypted retired crypto) :
    Fresh n ⟨(UdpClient.startUdp aes crypto connection client).1,
      (UdpClient.startUdp aes crypto connection client).2.filterMap UdpEffect.encryption? ++
        encrypted, accepted, retired⟩ := by
  rcases UdpClient.startUdp_cases aes crypto connection client with
    ⟨hsame, -⟩ | ⟨k, c, s, ping, ⟨hk, hc, hs⟩, rfl, hstart⟩
  · rw [hsame]
    exact h.mono (by omega)
  · obtain ⟨hclear, hapart⟩ := hfresh rfl k (Block.mem_ofBytes?_iff.mpr hk) c
      (Block.mem_ofBytes?_iff.mpr hc) s (Block.mem_ofBytes?_iff.mpr hs)
    obtain ⟨hnew, hrest⟩ := hclear.next hn
    rw [hstart]
    refine ⟨?_, ?_, ?_, List.nodup_cons.mpr ⟨hnew, h.nodup⟩⟩
    · intro hforce'
      rw [hforce] at hforce'
      cases hforce'
    · intro crypt hcrypt
      obtain rfl := Option.some.inj hcrypt
      exact ⟨rfl, hrest⟩
    · intro reader hreader
      obtain rfl := Option.some.inj hreader
      exact ⟨hapart.mono (by omega), by simp⟩

theorem fresh_pushServerNonce {n : Nat} {client : UdpClient}
    {encrypted accepted retired : List (Block × Block)}
    (h : Fresh n ⟨client, encrypted, accepted, retired⟩) {serverNonce : List UInt8}
    (hfresh : ∀ reader ∈ client.udpReader, reader.HasRoom →
      ∀ s ∈ Block.ofBytes? serverNonce, Apart retired reader.crypt.rawKey s.leNat n) :
    Fresh n ⟨client.pushServerNonce serverNonce, encrypted, accepted, retired⟩ := by
  cases hreader : client.udpReader with
  | none =>
      simp only [UdpClient.pushServerNonce, hreader]
      exact h
  | some reader =>
      simp only [UdpClient.pushServerNonce, hreader]
      split
      · rename_i hroom
        refine ⟨?_, h.senderReady, ?_, h.nodup⟩
        · intro hforce
          have := (h.tornDown hforce).2
          rw [hreader] at this
          cases this
        · intro reader' hreader'
          obtain rfl := Option.some.inj hreader'
          have hold := h.readerApart reader hreader
          refine ⟨hold.1, fun nonce hnonce s hs => ?_⟩
          rcases List.mem_append.mp hnonce with hmem | hlast
          · exact hold.2 nonce hmem s hs
          · obtain rfl := List.mem_singleton.mp hlast
            exact hfresh reader hreader hroom s hs
      · exact h

/-- A datagram is accepted only where the reader is, and a nonce is taken only from the channel. -/
theorem readerApart_poll {retired : List (Block × Block)} {reader : UdpReader} {n : Nat}
    (h : ReaderApart retired reader (n + 1)) (datagram : Option Datagram) (cooldownOver : Bool)
    (outbound : TrySend) :
    ReaderApart retired (reader.poll datagram cooldownOver outbound).1 n ∧
      (reader.poll datagram cooldownOver outbound).2.filterMap UdpEffect.encryption? = [] := by
  rcases reader.poll_cases datagram cooldownOver outbound with
    ⟨hcrypt, hqueue, -, -, hquiet⟩ | ⟨nonce, rest, hqueue, hpoll⟩ |
    ⟨bytes, origin, ivByte, tag0, tag1, tag2, ciphertext, step, plaintext, -, -, hqueue, -, hstep,
      -, hpoll⟩
  · refine ⟨⟨?_, ?_⟩, hquiet⟩
    · rw [hcrypt]
      exact h.1.mono (by omega)
    · rw [hcrypt, hqueue]
      exact (h.mono (by omega)).2
  · have hqueued := (h.mono (Nat.le_succ n)).2
    rw [hqueue] at hqueued
    rw [hpoll]
    refine ⟨⟨?_, ?_⟩, rfl⟩
    · simp only [Ocb2CryptState.setDecryptIv]
      cases hs : Block.ofBytes? nonce with
      | none => exact h.1.mono (by omega)
      | some s => exact hqueued nonce List.mem_cons_self s hs
    · intro nonce' hnonce' s hs
      have happly := hqueued nonce' (List.mem_cons_of_mem _ hnonce') s hs
      simp only [Ocb2CryptState.setDecryptIv]
      cases Block.ofBytes? nonce <;> exact happly
  · rw [hpoll]
    refine ⟨⟨(h.1.accept hstep).2, ?_⟩, rfl⟩
    simp [hqueue]

theorem notReplayed_readerPoll {aes : Aes128} {n : Nat} {conn : Connection}
    (h : Fresh (n + 1) conn) {datagram : Option Datagram} {cooldownOver : Bool}
    {outbound : TrySend} (hideal : conn.IdealTag (.readerPoll datagram cooldownOver outbound)) :
    conn.NotReplayed aes (.readerPoll datagram cooldownOver outbound) := by
  intro haccepts origin horigin
  cases hreader : conn.client.udpReader with
  | none => simp [Accepts, UdpClient.step, hreader] at haccepts
  | some reader =>
      simp only [Accepts, UdpClient.step, hreader] at haccepts
      rcases reader.poll_cases datagram cooldownOver outbound with
        ⟨-, -, -, hnot, -⟩ | ⟨nonce, rest, -, hpoll⟩ |
        ⟨bytes, sealedUnder, ivByte, tag0, tag1, tag2, ciphertext, step, plaintext, rfl, hrunning,
          hqueue, rfl, hstep, htag, -⟩
      · rw [hnot] at haccepts
        cases haccepts
      · rw [hpoll] at haccepts
        cases haccepts
      · have hsealed := (hideal reader hreader hrunning hqueue step hstep).mp htag
        subst hsealed
        obtain rfl : origin = (reader.crypt.rawKey, step.iv) := by
          simpa [originOf] using horigin
        exact ((h.readerApart reader hreader).1.accept hstep).1

theorem notReplayed_of_originOf {aes : Aes128} {conn : Connection} {event : UdpEvent}
    (h : originOf event = []) : conn.NotReplayed aes event := by
  intro _ origin horigin
  rw [h] at horigin
  cases horigin

theorem fresh_cryptSetup {aes : Aes128} {n : Nat} {conn : Connection} (h : Fresh (n + 1) conn)
    (hn : n + 1 ≤ 2 ^ 128) {setup : CryptSetup} {connection : Option (List UInt8)}
    (hfresh : conn.GivesFreshNonces (n + 1) (.cryptSetup setup connection)) :
    Fresh n (conn.step aes (.cryptSetup setup connection)) := by
  have hpush : ∀ serverNonce, (∀ reader ∈ conn.client.udpReader, reader.HasRoom →
      ∀ s ∈ Block.ofBytes? serverNonce, Apart conn.retired reader.crypt.rawKey s.leNat (n + 1)) →
      Fresh n ⟨conn.client.pushServerNonce serverNonce, conn.encrypted, conn.accepted,
        conn.retired⟩ :=
    fun _ happly => (fresh_pushServerNonce h happly).mono (by omega)
  obtain ⟨_ | key, _ | clientNonce, _ | serverNonce⟩ := setup
  -- without a server nonce nothing happens, without the rest it is a resync
  · exact (h.mono (by omega)).accepted_congr
  · exact (hpush serverNonce hfresh).accepted_congr
  · exact (h.mono (by omega)).accepted_congr
  · exact (hpush serverNonce hfresh).accepted_congr
  · exact (h.mono (by omega)).accepted_congr
  · exact (hpush serverNonce hfresh).accepted_congr
  · exact (h.mono (by omega)).accepted_congr
  · have hstored : Fresh (n + 1) ⟨{ conn.client with
        storedCrypto := some { key, clientNonce, serverNonce } }, conn.encrypted, conn.accepted,
        conn.retired⟩ := ⟨h.tornDown, h.senderReady, h.readerApart, h.nodup⟩
    change Fresh n ⟨(UdpClient.handleCryptSetup aes _ connection conn.client).1,
      (UdpClient.handleCryptSetup aes _ connection conn.client).2.filterMap
        UdpEffect.encryption? ++ conn.encrypted, _, conn.retired⟩
    rcases Bool.eq_false_or_eq_true conn.client.forceTcp with hforce | hforce
    · simp only [UdpClient.handleCryptSetup, hforce, if_true]
      rw [← hforce]
      exact (hstored.mono (by omega)).accepted_congr
    · rw [UdpClient.handleCryptSetup_full hforce]
      exact (fresh_startUdp aes hstored hn hforce (hfresh hforce)).accepted_congr

theorem fresh_forceTcpChanged {aes : Aes128} {n : Nat} {conn : Connection}
    (h : Fresh (n + 1) conn) (hn : n + 1 ≤ 2 ^ 128) {newForce : Bool}
    {connection : Option (List UInt8)}
    (hfresh : conn.GivesFreshNonces (n + 1) (.forceTcpChanged newForce connection)) :
    Fresh n (conn.step aes (.forceTcpChanged newForce connection)) := by
  by_cases hchanged : newForce = conn.client.forceTcp
  · simp only [step, UdpClient.step, Toggles, hchanged, ne_eq, not_true_eq_false, if_false]
    exact (h.mono (by omega)).accepted_congr
  · simp only [step, UdpClient.step, Toggles, ne_eq, hchanged, not_false_eq_true, if_true]
    cases newForce with
    | true =>
        simp only [UdpClient.handleForceTcpChange, if_true]
        refine ⟨fun _ => ⟨rfl, rfl⟩, ?_, ?_, h.nodup⟩
        · rintro sender ⟨⟩
        · rintro reader ⟨⟩
    | false =>
        have hforce : conn.client.forceTcp = true := by simpa using hchanged
        obtain ⟨hsender, hreader⟩ := h.tornDown hforce
        -- UDP is off, so nothing depends on which packets are retired
        have hoff : Fresh (n + 1) ⟨{ conn.client with forceTcp := false }, conn.encrypted,
            conn.accepted, conn.accepted⟩ := by
          refine ⟨fun _ => ⟨hsender, hreader⟩, h.senderReady, fun reader hmem => ?_, h.nodup⟩
          rw [Option.mem_def, hreader] at hmem
          cases hmem
        rcases Option.eq_none_or_eq_some conn.client.storedCrypto with hstored | ⟨crypto, hstored⟩
        · rw [UdpClient.handleForceTcpChange_of_none hstored]
          exact (hoff.mono (by omega)).accepted_congr
        · rw [UdpClient.handleForceTcpChange_of_some hstored]
          have hstart := fresh_startUdp aes hoff hn rfl
            (fun hconnected => hfresh hchanged rfl hconnected crypto hstored)
          exact hstart.accepted_congr

theorem fresh_readerPoll {aes : Aes128} {n : Nat} {conn : Connection} (h : Fresh (n + 1) conn)
    (datagram : Option Datagram) (cooldownOver : Bool) (outbound : TrySend) :
    Fresh n (conn.step aes (.readerPoll datagram cooldownOver outbound)) := by
  cases hreader : conn.client.udpReader with
  | none =>
      simp only [step, UdpClient.step, Toggles, hreader]
      exact (h.mono (by omega)).accepted_congr
  | some reader =>
      obtain ⟨hapart, hquiet⟩ :=
        readerApart_poll (h.readerApart reader hreader) datagram cooldownOver outbound
      simp only [step, UdpClient.step, Toggles, hreader, hquiet, List.nil_append]
      refine ⟨fun hforce => ?_, (h.mono (by omega)).senderReady, fun reader' hreader' => ?_,
        h.nodup⟩
      · have := (h.tornDown hforce).2
        rw [hreader] at this
        cases this
      · obtain rfl := Option.some.inj hreader'
        exact hapart

theorem fresh_readerEnded {aes : Aes128} {n : Nat} {conn : Connection} (h : Fresh (n + 1) conn) :
    Fresh n (conn.step aes .readerEnded) := by
  cases hreader : conn.client.udpReader with
  | none =>
      simp only [step, UdpClient.step, Toggles, hreader]
      exact (h.mono (by omega)).accepted_congr
  | some reader =>
      simp only [step, UdpClient.step, Toggles, hreader]
      refine ⟨fun hforce => ?_, (h.mono (by omega)).senderReady, fun reader' hreader' => ?_,
        h.nodup⟩
      · have := (h.tornDown hforce).2
        rw [hreader] at this
        cases this
      · obtain rfl := Option.some.inj hreader'
        exact (h.mono (Nat.le_succ n)).readerApart reader hreader

/-- Every event that gives fresh nonces keeps the nonces fresh. -/
theorem fresh_step {aes : Aes128} {n : Nat} {conn : Connection} {event : UdpEvent}
    (h : Fresh (n + 1) conn) (hn : n + 1 ≤ 2 ^ 128) (hideal : conn.IdealTag event)
    (hfresh : conn.GivesFreshNonces (n + 1) event) :
    Fresh n (conn.step aes event) ∧ conn.NotReplayed aes event := by
  cases event with
  | cryptSetup setup connection =>
      exact ⟨fresh_cryptSetup h hn hfresh, notReplayed_of_originOf rfl⟩
  | forceTcpChanged newForce connection =>
      exact ⟨fresh_forceTcpChanged h hn hfresh, notReplayed_of_originOf rfl⟩
  | sendRaw payload =>
      exact ⟨(fresh_sendRaw h hn payload).accepted_congr, notReplayed_of_originOf rfl⟩
  | readerPoll datagram cooldownOver outbound =>
      exact ⟨fresh_readerPoll h datagram cooldownOver outbound, notReplayed_readerPoll h hideal⟩
  | readerEnded => exact ⟨fresh_readerEnded h, notReplayed_of_originOf rfl⟩

/-! ## Whole runs -/

/-- Each start and each resync of the run gives nonces that are fresh for as many
events as are left of it. -/
def StaysFresh (aes : Aes128) : Connection → List UdpEvent → Prop
  | _, [] => True
  | conn, event :: events =>
      conn.GivesFreshNonces (events.length + 1) event ∧ StaysFresh aes (conn.step aes event) events

instance decidableStaysFresh (aes : Aes128) :
    ∀ conn events, Decidable (StaysFresh aes conn events)
  | _, [] => inferInstanceAs (Decidable True)
  | conn, event :: events =>
      have := decidableStaysFresh aes (conn.step aes event) events
      inferInstanceAs (Decidable (_ ∧ StaysFresh aes (conn.step aes event) events))

/-- As long as every event gives fresh nonces, none is used twice, and nothing is replayed. -/
theorem fresh_run {aes : Aes128} {events : List UdpEvent} {conn : Connection}
    (hlength : events.length ≤ 2 ^ 128) (h : Fresh events.length conn)
    (hideal : Along (step aes) IdealTag conn events) (hfresh : StaysFresh aes conn events) :
    (Runs.run (step aes) conn events).encrypted.Nodup ∧
      Along (step aes) (NotReplayed aes) conn events := by
  induction events generalizing conn with
  | nil => exact ⟨h.nodup, trivial⟩
  | cons event events ih =>
      rw [List.length_cons] at hlength h
      obtain ⟨hstep, hnot⟩ := fresh_step h hlength hideal.1 hfresh.1
      obtain ⟨hnodup, hrest⟩ := ih (by omega) hstep hideal.2 hfresh.2
      exact ⟨hnodup, hnot, hrest⟩

/-- In every run in which each start and each resync gives fresh nonces, no two
packets are encrypted under one key and nonce, and no packet from before a toggle
is accepted after it. -/
theorem nonces_fresh (aes : Aes128) (forceTcp : Bool) {events : List UdpEvent}
    (hlength : events.length ≤ 2 ^ 128)
    (hideal : Along (step aes) IdealTag (start forceTcp) events)
    (hfresh : StaysFresh aes (start forceTcp) events) :
    (Runs.run (step aes) (start forceTcp) events).encrypted.Nodup ∧
      Along (step aes) (NotReplayed aes) (start forceTcp) events :=
  fresh_run hlength (fresh_start _ _) hideal hfresh

section Example

/-- A resync to 500, to which the server seals its next packet under 501. -/
def resyncTo500 : CryptSetup := { serverNonce := some (Block.ofLeNat 500).bytes }

def renewedSetup : CryptSetup :=
  { key := some (Block.ofLeNat 1).bytes
    clientNonce := some Block.zero.bytes
    serverNonce := some Block.zero.bytes }

def received (key n : Nat) : UdpEvent :=
  .readerPoll (some ⟨Ocb2CryptState.sealPacket (Equiv.refl Block) (Block.ofLeNat n) [2],
    some (Block.ofLeNat key, Block.ofLeNat n)⟩) true .sent

/-- A packet each way, a resync, and UDP switched off, given a new key and switched
on again. At last a packet from before the switch comes once more. -/
def exampleRun : List UdpEvent :=
  [.cryptSetup zeroSetup (some []), .sendRaw [1], received 0 1, .cryptSetup resyncTo500 none,
    .readerPoll none true .sent, received 0 501, .forceTcpChanged true none,
    .cryptSetup renewedSetup none, .forceTcpChanged false (some []), .sendRaw [1], received 1 1,
    received 0 501]

theorem nonces_fresh_example :
    (Runs.run (step fun _ => Equiv.refl Block) (start false) exampleRun).encrypted.Nodup ∧
      Along (step fun _ => Equiv.refl Block) (NotReplayed fun _ => Equiv.refl Block) (start false)
        exampleRun :=
  nonces_fresh (fun _ => Equiv.refl Block) false (by decide) (by decide +kernel)
    (by decide +kernel)

def fullSetup? : UdpEvent → Option CryptSetup
  | .cryptSetup setup _ =>
      if setup.key.isSome ∧ setup.clientNonce.isSome ∧ setup.serverNonce.isSome then some setup
      else none
  | _ => none

/-- One set-up and one toggle: the ping of the second start is encrypted under the
nonce of the first one's. -/
theorem toggle_reuses_nonce :
    ¬ ∀ (aes : Aes128) (forceTcp : Bool) (events : List UdpEvent),
      events.length < 2 ^ 128 → (events.filterMap fullSetup?).Nodup →
      Along (step aes) IdealTag (start forceTcp) events →
      (Runs.run (step aes) (start forceTcp) events).encrypted.Nodup ∧
        Along (step aes) (NotReplayed aes) (start forceTcp) events := by
  intro h
  have hnodup := (h (fun _ => Equiv.refl Block) false
    [.cryptSetup zeroSetup (some []), .forceTcpChanged true none, .forceTcpChanged false (some [])]
    (by decide) (by decide) (by decide)).1
  revert hnodup
  decide +kernel

end Example

end Connection

end FancyMumble.Client
