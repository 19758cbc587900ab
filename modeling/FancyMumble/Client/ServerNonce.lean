import FancyMumble.Client.Udp
import FancyMumble.Lib.Runs

/-!
# The receive nonce and the server

The nonce the server last announced, by a full `CryptSetup` or by a resync,
advanced by the packets accepted since, against the nonce the reader decrypts
with. The two agree in every run in which no announcement is lost on its way to
the reader, and no toggle falls back behind one.
-/

namespace FancyMumble.Client

open Transport.Ocb2
open Lib
open Lib.Runs (Along)

/-- A connection with the server's announcements. -/
structure Announced where
  client : UdpClient
  /-- The server nonce of the last full `CryptSetup`. -/
  lastFull : Option (List UInt8)
  /-- The nonce to follow: the last announced one, advanced by the packets accepted
  since. -/
  followed : Option (List UInt8)

def advance (nonce : List UInt8) (ivByte : UInt8) : List UInt8 :=
  match Block.ofBytes? nonce with
  | none => nonce
  | some iv =>
      match Ocb2CryptState.stepNonce iv ivByte with
      | none => nonce
      | some step => if step.restore then nonce else step.iv.bytes

/-- The decrypt nonce in use: the reader takes all waiting nonces before the next
datagram. -/
def UdpReader.nonceInUse (reader : UdpReader) : Block :=
  (reader.serverNonceRx.foldl Ocb2CryptState.setDecryptIv reader.crypt).decryptIv

namespace Announced

def start (forceTcp : Bool) : Announced :=
  { client := UdpClient.start forceTcp, lastFull := none, followed := none }

def follow (followed : Option (List UInt8)) (effects : List UdpEffect) :
    UdpEvent → Option (List UInt8)
  | .cryptSetup setup _ => setup.serverNonce.or followed
  | .readerPoll (some ⟨ivByte :: _, _⟩) _ _ =>
      if effects.any UdpEffect.isAccepted then followed.map (advance · ivByte) else followed
  | _ => followed

def fullNonce (lastFull : Option (List UInt8)) : UdpEvent → Option (List UInt8)
  | .cryptSetup ⟨some _, some _, some serverNonce⟩ _ => some serverNonce
  | _ => lastFull

def step (aes : Aes128) (conn : Announced) (event : UdpEvent) : Announced where
  client := (conn.client.step aes event).1
  lastFull := fullNonce conn.lastFull event
  followed := follow conn.followed (conn.client.step aes event).2 event

/-- Whenever UDP is active, the decrypt nonce in use is the followed one. -/
def Follows (conn : Announced) : Prop :=
  ∀ reader ∈ conn.client.udpReader, reader.running = true →
    conn.followed = some reader.nonceInUse.bytes

def WellFormed (crypto : StoredCrypto) : Prop :=
  crypto.key.length = 16 ∧ crypto.clientNonce.length = 16 ∧ crypto.serverNonce.length = 16

def Active (conn : Announced) : Prop :=
  ∃ reader ∈ conn.client.udpReader, reader.running = true

/-- No announcement is lost: a full set-up replaces the active transport, a resync
reaches it, and a toggle starts UDP only while the last full set-up still has the
nonce to follow. -/
def KeepsUp (conn : Announced) : UdpEvent → Prop
  | .cryptSetup setup connection =>
      match setup.key, setup.clientNonce, setup.serverNonce with
      | some key, some clientNonce, some serverNonce =>
          conn.client.forceTcp = false → conn.Active →
            WellFormed { key, clientNonce, serverNonce } ∧ connection.isSome
      | _, _, some serverNonce =>
          ∀ reader ∈ conn.client.udpReader, reader.running = true →
            serverNonce.length = 16 ∧ reader.serverNonceRx.length < resyncCapacity
      | _, _, none => True
  | .forceTcpChanged newForce connection =>
      newForce ≠ conn.client.forceTcp → newForce = false → connection.isSome →
        ∀ crypto ∈ conn.client.storedCrypto, WellFormed crypto → conn.followed = conn.lastFull
  | _ => True

instance (conn : Announced) : Decidable conn.Follows :=
  inferInstanceAs (Decidable (∀ reader ∈ conn.client.udpReader, _))

instance (crypto : StoredCrypto) : Decidable (WellFormed crypto) :=
  inferInstanceAs (Decidable (_ ∧ _ ∧ _))

instance (conn : Announced) : Decidable conn.Active :=
  inferInstanceAs (Decidable (∃ reader ∈ conn.client.udpReader, _))

instance (conn : Announced) : (event : UdpEvent) → Decidable (conn.KeepsUp event)
  | .cryptSetup ⟨some _, some _, some _⟩ _ => inferInstanceAs (Decidable (_ → _ → _ ∧ _))
  | .cryptSetup ⟨none, _, some _⟩ _ | .cryptSetup ⟨some _, none, some _⟩ _ =>
      inferInstanceAs (Decidable (∀ reader ∈ conn.client.udpReader, _))
  | .cryptSetup ⟨none, _, none⟩ _ | .cryptSetup ⟨some _, none, none⟩ _
  | .cryptSetup ⟨some _, some _, none⟩ _ => inferInstanceAs (Decidable True)
  | .forceTcpChanged _ _ => inferInstanceAs (Decidable (_ → _ → _ → _))
  | .sendRaw _ | .readerPoll _ _ _ | .readerEnded => inferInstanceAs (Decidable True)

/-! ## The invariant -/

structure Tracks (conn : Announced) : Prop where
  tornDown : conn.client.forceTcp = true → conn.client.udpReader = none
  stored : ∀ crypto ∈ conn.client.storedCrypto, conn.lastFull = some crypto.serverNonce
  follows : conn.Follows

theorem tracks_start (forceTcp : Bool) : Tracks (start forceTcp) :=
  ⟨fun _ => rfl, nofun, nofun⟩

theorem setDecryptIv_of_length {crypt : Ocb2CryptState} {nonce : List UInt8}
    (hlength : nonce.length = 16) : (crypt.setDecryptIv nonce).decryptIv.bytes = nonce := by
  simp [Ocb2CryptState.setDecryptIv, Block.ofBytes?, hlength]

theorem advance_bytes {iv : Block} {ivByte : UInt8} {step : Ocb2CryptState.NonceStep}
    (hstep : Ocb2CryptState.stepNonce iv ivByte = some step) :
    advance iv.bytes ivByte = (if step.restore then iv else step.iv).bytes := by
  have hiv : Block.ofBytes? iv.bytes = some iv := Block.mem_ofBytes?_iff.mpr rfl
  simp only [advance, hiv, hstep]
  split <;> rfl

theorem follow_of_not_accepted {followed : Option (List UInt8)} {effects : List UdpEffect}
    {datagram : Option Datagram} {cooldownOver : Bool} {outbound : TrySend}
    (h : effects.any UdpEffect.isAccepted = false) :
    follow followed effects (.readerPoll datagram cooldownOver outbound) = followed := by
  match datagram with
  | some ⟨_ :: _, _⟩ => simp [follow, h]
  | some ⟨[], _⟩ | none => rfl

theorem follows_pushServerNonce {client : UdpClient} {lastFull : Option (List UInt8)}
    {serverNonce : List UInt8}
    (hkeeps : ∀ reader ∈ client.udpReader, reader.running = true →
      serverNonce.length = 16 ∧ reader.serverNonceRx.length < resyncCapacity) :
    Follows ⟨client.pushServerNonce serverNonce, lastFull, some serverNonce⟩ := by
  intro reader' hreader' hrunning'
  rcases Option.eq_none_or_eq_some client.udpReader with hreader | ⟨reader, hreader⟩
  · simp [UdpClient.pushServerNonce, hreader] at hreader'
  · simp only [UdpClient.pushServerNonce, hreader, Option.mem_def] at hreader'
    split at hreader'
    · rename_i hroom
      obtain rfl := Option.some.inj hreader'
      obtain ⟨hlength, -⟩ := hkeeps reader hreader hroom.1
      rw [UdpReader.nonceInUse, List.foldl_append]
      exact congrArg some (setDecryptIv_of_length hlength).symm
    · rename_i hroom
      obtain rfl := Option.some.inj (hreader.symm.trans hreader')
      exact absurd ⟨hrunning', (hkeeps reader hreader hrunning').2⟩ hroom

theorem follows_startUdp {aes : Aes128} {client : UdpClient}
    {lastFull followed : Option (List UInt8)} {crypto : StoredCrypto}
    {connection : Option (List UInt8)}
    (hstart : connection.isSome → WellFormed crypto → followed = some crypto.serverNonce)
    (hfail : ¬ (connection.isSome ∧ WellFormed crypto) → Follows ⟨client, lastFull, followed⟩) :
    Follows ⟨(UdpClient.startUdp aes crypto connection client).1, lastFull, followed⟩ := by
  rcases UdpClient.startUdp_cases aes crypto connection client with
    ⟨hsame, hnot⟩ | ⟨k, c, s, ping, ⟨hk, hc, hs⟩, rfl, hrun⟩
  · rw [hsame]
    apply hfail
    rintro ⟨hconnected, hkey, hclient, hserver⟩
    obtain ⟨ping, rfl⟩ := Option.isSome_iff_exists.mp hconnected
    exact hnot ⟨⟨_, hkey⟩, ⟨_, hclient⟩, ⟨_, hserver⟩, ping, ⟨rfl, rfl, rfl⟩, rfl⟩
  · rw [hrun]
    intro reader hreader _
    obtain rfl := Option.some.inj hreader
    have hformed : WellFormed crypto :=
      ⟨hk ▸ k.length_bytes, hc ▸ c.length_bytes, hs ▸ s.length_bytes⟩
    rw [hstart rfl hformed, ← hs]
    rfl

theorem startUdp_frame (aes : Aes128) (crypto : StoredCrypto)
    (connection : Option (List UInt8)) (client : UdpClient) :
    (UdpClient.startUdp aes crypto connection client).1.forceTcp = client.forceTcp ∧
      (UdpClient.startUdp aes crypto connection client).1.storedCrypto = client.storedCrypto := by
  rcases UdpClient.startUdp_cases aes crypto connection client with
    ⟨hsame, -⟩ | ⟨_, _, _, _, -, -, hrun⟩
  · rw [hsame]
    exact ⟨rfl, rfl⟩
  · rw [hrun]
    exact ⟨rfl, rfl⟩

theorem pushServerNonce_frame (client : UdpClient) (serverNonce : List UInt8) :
    (client.pushServerNonce serverNonce).forceTcp = client.forceTcp ∧
      (client.pushServerNonce serverNonce).storedCrypto = client.storedCrypto ∧
      ((client.pushServerNonce serverNonce).udpReader = none ↔ client.udpReader = none) := by
  rcases Option.eq_none_or_eq_some client.udpReader with hreader | ⟨reader, hreader⟩
  · simp [UdpClient.pushServerNonce, hreader]
  · simp only [UdpClient.pushServerNonce, hreader]
    split <;> simp [hreader]

theorem tracks_cryptSetup {aes : Aes128} {conn : Announced} (h : Tracks conn)
    {setup : CryptSetup} {connection : Option (List UInt8)}
    (hkeeps : conn.KeepsUp (.cryptSetup setup connection)) :
    Tracks (conn.step aes (.cryptSetup setup connection)) := by
  have hpush : ∀ serverNonce, (∀ reader ∈ conn.client.udpReader, reader.running = true →
      serverNonce.length = 16 ∧ reader.serverNonceRx.length < resyncCapacity) →
      Tracks ⟨conn.client.pushServerNonce serverNonce, conn.lastFull, some serverNonce⟩ := by
    intro serverNonce hreaches
    obtain ⟨hforce, hstored, hnone⟩ := pushServerNonce_frame conn.client serverNonce
    refine ⟨fun hforce' => ?_, fun crypto hcrypto => ?_, follows_pushServerNonce hreaches⟩
    · exact hnone.mpr (h.tornDown (hforce ▸ hforce'))
    · exact h.stored crypto (hstored ▸ hcrypto)
  obtain ⟨_ | key, _ | clientNonce, _ | serverNonce⟩ := setup
  -- without a server nonce nothing happens, without the rest it is a resync
  · exact ⟨h.tornDown, h.stored, h.follows⟩
  · exact hpush serverNonce hkeeps
  · exact ⟨h.tornDown, h.stored, h.follows⟩
  · exact hpush serverNonce hkeeps
  · exact ⟨h.tornDown, h.stored, h.follows⟩
  · exact hpush serverNonce hkeeps
  · exact ⟨h.tornDown, h.stored, h.follows⟩
  · change Tracks ⟨(UdpClient.handleCryptSetup aes _ connection conn.client).1,
      some serverNonce, some serverNonce⟩
    rcases Bool.eq_false_or_eq_true conn.client.forceTcp with hforce | hforce
    · have hoff := h.tornDown hforce
      have hhandle : UdpClient.handleCryptSetup aes
          ⟨some key, some clientNonce, some serverNonce⟩ connection conn.client =
          ({ conn.client with storedCrypto := some { key, clientNonce, serverNonce } },
            [.audioTransportChanged false]) := by
        simp [UdpClient.handleCryptSetup, hforce]
      rw [hhandle]
      refine ⟨fun _ => hoff, fun crypto hcrypto => ?_, fun reader hreader => ?_⟩
      · obtain rfl := Option.some.inj hcrypto
        rfl
      · rw [Option.mem_def, hoff] at hreader
        cases hreader
    · rw [UdpClient.handleCryptSetup_full hforce]
      obtain ⟨hforce', hstored⟩ := startUdp_frame aes { key, clientNonce, serverNonce } connection
        { conn.client with storedCrypto := some { key, clientNonce, serverNonce } }
      refine ⟨fun hon => ?_, fun crypto hcrypto => ?_, follows_startUdp (fun _ _ => rfl) ?_⟩
      · rw [hforce'] at hon
        rw [hforce] at hon
        cases hon
      · rw [hstored] at hcrypto
        obtain rfl := Option.some.inj hcrypto
        rfl
      · -- a start that fails leaves no active reader behind
        intro hfail reader hreader hrunning
        obtain ⟨hformed, hconnected⟩ := hkeeps hforce ⟨reader, hreader, hrunning⟩
        exact absurd ⟨hconnected, hformed⟩ hfail

theorem tracks_forceTcpChanged {aes : Aes128} {conn : Announced} (h : Tracks conn)
    {newForce : Bool} {connection : Option (List UInt8)}
    (hkeeps : conn.KeepsUp (.forceTcpChanged newForce connection)) :
    Tracks (conn.step aes (.forceTcpChanged newForce connection)) := by
  by_cases hchanged : newForce = conn.client.forceTcp
  · simp only [step, UdpClient.step, hchanged, ne_eq, not_true_eq_false, if_false]
    exact ⟨h.tornDown, h.stored, h.follows⟩
  · simp only [step, UdpClient.step, ne_eq, hchanged, not_false_eq_true, if_true]
    cases newForce with
    | true =>
        simp only [UdpClient.handleForceTcpChange, if_true]
        refine ⟨fun _ => rfl, h.stored, ?_⟩
        rintro reader ⟨⟩
    | false =>
        have hforce : conn.client.forceTcp = true := by simpa using hchanged
        have hoff := h.tornDown hforce
        have hidle : Follows ⟨{ conn.client with forceTcp := false }, conn.lastFull,
            conn.followed⟩ := by
          intro reader hreader
          rw [Option.mem_def, hoff] at hreader
          cases hreader
        rcases Option.eq_none_or_eq_some conn.client.storedCrypto with hstored | ⟨crypto, hstored⟩
        · rw [UdpClient.handleForceTcpChange_of_none hstored]
          exact ⟨fun _ => hoff, h.stored, hidle⟩
        · rw [UdpClient.handleForceTcpChange_of_some hstored]
          obtain ⟨hforce', hstored'⟩ := startUdp_frame aes crypto connection
            { conn.client with forceTcp := false }
          refine ⟨fun hon => ?_, fun crypto' hcrypto' => ?_,
            follows_startUdp (fun hconnected hformed => ?_) fun _ => hidle⟩
          · rw [hforce'] at hon
            cases hon
          · exact h.stored crypto' (hstored' ▸ hcrypto')
          · exact (hkeeps hchanged rfl hconnected crypto hstored hformed).trans
              (h.stored crypto hstored)

theorem tracks_readerPoll {aes : Aes128} {conn : Announced} (h : Tracks conn)
    (datagram : Option Datagram) (cooldownOver : Bool) (outbound : TrySend) :
    Tracks (conn.step aes (.readerPoll datagram cooldownOver outbound)) := by
  rcases Option.eq_none_or_eq_some conn.client.udpReader with hreader | ⟨reader, hreader⟩
  · simp only [step, UdpClient.step, hreader]
    refine ⟨fun _ => hreader, h.stored, fun reader' hreader' => ?_⟩
    rw [Option.mem_def, hreader] at hreader'
    cases hreader'
  · have hold := h.follows reader hreader
    simp only [step, UdpClient.step, hreader]
    refine ⟨fun hforce => ?_, h.stored, fun reader' hreader' hrunning' => ?_⟩
    · have := h.tornDown hforce
      rw [hreader] at this
      cases this
    · obtain rfl := Option.some.inj hreader'
      rcases reader.poll_cases datagram cooldownOver outbound with
        ⟨hcrypt, hqueue, hrunning, hnot, -⟩ | ⟨nonce, rest, hqueue, hpoll⟩ |
        ⟨bytes, origin, ivByte, tag0, tag1, tag2, ciphertext, step, plaintext, rfl, hrunning,
          hqueue, rfl, hstep, -, hpoll⟩
      · rw [UdpReader.nonceInUse, hcrypt, hqueue]
        exact (follow_of_not_accepted hnot).trans (hold (hrunning hrunning'))
      · rw [hpoll] at hrunning' ⊢
        refine (follow_of_not_accepted rfl).trans ((hold hrunning').trans ?_)
        simp only [UdpReader.nonceInUse, hqueue, List.foldl_cons]
      · rw [hpoll]
        have hin := hold hrunning
        simp only [UdpReader.nonceInUse, hqueue, List.foldl_nil] at hin ⊢
        simp only [follow, List.any_cons, UdpEffect.isAccepted, Bool.true_or, if_true, hin,
          Option.map_some, advance_bytes hstep]
        rfl

theorem tracks_readerEnded {aes : Aes128} {conn : Announced} (h : Tracks conn) :
    Tracks (conn.step aes .readerEnded) := by
  rcases Option.eq_none_or_eq_some conn.client.udpReader with hreader | ⟨reader, hreader⟩
  · simp only [step, UdpClient.step, hreader]
    exact ⟨fun _ => hreader, h.stored, h.follows⟩
  · simp only [step, UdpClient.step, hreader]
    refine ⟨fun hforce => ?_, h.stored, fun reader' hreader' hrunning' => ?_⟩
    · have := h.tornDown hforce
      rw [hreader] at this
      cases this
    · obtain rfl := Option.some.inj hreader'
      cases hrunning'

theorem tracks_sendRaw {aes : Aes128} {conn : Announced} (h : Tracks conn)
    (payload : List UInt8) : Tracks (conn.step aes (.sendRaw payload)) := by
  simp only [step, UdpClient.step, UdpClient.sendRaw]
  split
  · exact ⟨h.tornDown, h.stored, h.follows⟩
  · split <;> exact ⟨h.tornDown, h.stored, h.follows⟩

theorem tracks_step {aes : Aes128} {conn : Announced} {event : UdpEvent} (h : Tracks conn)
    (hkeeps : conn.KeepsUp event) : Tracks (conn.step aes event) := by
  cases event with
  | cryptSetup setup connection => exact tracks_cryptSetup h hkeeps
  | forceTcpChanged newForce connection => exact tracks_forceTcpChanged h hkeeps
  | sendRaw payload => exact tracks_sendRaw h payload
  | readerPoll datagram cooldownOver outbound =>
      exact tracks_readerPoll h datagram cooldownOver outbound
  | readerEnded => exact tracks_readerEnded h

/-! ## Whole runs -/

/-- In every state of a run that loses no announcement, an active reader decrypts
with the nonce to follow. -/
theorem follows_run (aes : Aes128) (forceTcp : Bool) {events : List UdpEvent}
    (hkeeps : Along (step aes) KeepsUp (start forceTcp) events) :
    Follows (Runs.run (step aes) (start forceTcp) events) ∧
      Along (step aes) (fun conn _ => conn.Follows) (start forceTcp) events :=
  ⟨(Runs.invariant_run (fun _ _ h hk => tracks_step h hk) (tracks_start forceTcp) hkeeps).follows,
    Runs.along_of_invariant (fun _ _ h hk => tracks_step h hk) (fun _ _ h _ => h.follows)
      (tracks_start forceTcp) hkeeps⟩

section Example

def resyncTo7 : CryptSetup := { serverNonce := some (Block.ofLeNat 7).bytes }

theorem follows_run_example :
    Follows (Runs.run (step fun _ => Equiv.refl Block) (start false)
      [.cryptSetup zeroSetup (some []), .cryptSetup resyncTo7 none, .readerPoll none true .sent]) ∧
      Along (step fun _ => Equiv.refl Block) (fun conn _ => conn.Follows) (start false)
        [.cryptSetup zeroSetup (some []), .cryptSetup resyncTo7 none,
          .readerPoll none true .sent] :=
  follows_run (fun _ => Equiv.refl Block) false (by decide)

/-- Every field that is present has 16 bytes, and the socket connects. -/
def Benign : UdpEvent → Prop
  | .cryptSetup setup connection =>
      connection.isSome ∧ (∀ key ∈ setup.key, key.length = 16) ∧
        (∀ nonce ∈ setup.clientNonce, nonce.length = 16) ∧
        ∀ nonce ∈ setup.serverNonce, nonce.length = 16
  | .forceTcpChanged _ connection => connection.isSome
  | _ => True

instance : (event : UdpEvent) → Decidable (Benign event)
  | .cryptSetup _ _ => inferInstanceAs (Decidable (_ ∧ _ ∧ _ ∧ _))
  | .forceTcpChanged _ _ => inferInstanceAs (Decidable (_ = true))
  | .sendRaw _ | .readerPoll _ _ _ | .readerEnded => inferInstanceAs (Decidable True)

/-- A resync while UDP is off is forgotten when UDP starts. -/
theorem resync_forgotten :
    ¬ ∀ (aes : Aes128) (forceTcp : Bool) (events : List UdpEvent),
      (∀ event ∈ events, Benign event) →
      Follows (Runs.run (step aes) (start forceTcp) events) := by
  intro h
  have hfollows := h (fun _ => Equiv.refl Block) true
    [.cryptSetup zeroSetup (some []), .cryptSetup resyncTo7 (some []),
      .forceTcpChanged false (some [])] (by decide)
  revert hfollows
  decide

end Example

end Announced

end FancyMumble.Client
