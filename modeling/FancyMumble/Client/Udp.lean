import FancyMumble.Message
import FancyMumble.Transport.Ocb2.CryptState

/-!
# The UDP transport of a connection

The part of the client event loop that owns the UDP transport: the `CryptSetup`
messages, the force-TCP toggle that tears the transport down and starts it again
from the stored key material, the outbound sender, and the reader task with the
channel that pushes server nonces into it.
-/

namespace FancyMumble.Client

open Transport.Ocb2

/-- Stored key material from the last full `CryptSetup`, so that UDP can be enabled
again when `force_tcp` is toggled off. -/
structure StoredCrypto where
  key : List UInt8
  clientNonce : List UInt8
  serverNonce : List UInt8
deriving DecidableEq

/-- The reader task with the receiving end of its nonce channel. The task may have
ended while its handle is still stored. -/
structure UdpReader where
  crypt : Ocb2CryptState
  serverNonceRx : List (List UInt8) := []
  consecutiveFailures : Nat := 0
  running : Bool := true

def resyncCapacity : Nat := 4

def UdpReader.HasRoom (reader : UdpReader) : Prop :=
  reader.running = true ∧ reader.serverNonceRx.length < resyncCapacity

instance (reader : UdpReader) : Decidable reader.HasRoom :=
  inferInstanceAs (Decidable (_ ∧ _))

/-- The UDP state of the event loop. The reader stands for `udp_reader_task` and
`udp_resync_tx`, which are set and cleared together. -/
structure UdpClient where
  forceTcp : Bool
  storedCrypto : Option StoredCrypto := none
  udpSender : Option Ocb2CryptState := none
  udpReader : Option UdpReader := none
  decryptStats : PacketStats := {}

/-- What a step does to the outside. The key and nonce of a packet are recorded with
it for the statements about them. -/
inductive UdpEffect where
  | encrypted (key iv : Block) (packet : List UInt8)
  | accepted (key iv : Block) (plaintext : List UInt8)
  | resyncRequested
  | audioTransportChanged (udp : Bool)
deriving DecidableEq

def UdpEffect.isAccepted : UdpEffect → Bool
  | .accepted _ _ _ => true
  | _ => false

def UdpEffect.encryption? : UdpEffect → Option (Block × Block)
  | .encrypted key iv _ => some (key, iv)
  | _ => none

inductive TrySend where
  | sent
  | full
  | closed
deriving DecidableEq

/-- A received datagram, with the key and nonce the server sealed it under: none for
a forged one. Only the statements read the origin. -/
structure Datagram where
  bytes : List UInt8
  origin : Option (Block × Block)
deriving DecidableEq

/-- What the event loop and the reader task react to. Where UDP is to be started,
the event says whether the socket connects, and carries the payload of the initial
ping when it does. -/
inductive UdpEvent where
  | cryptSetup (setup : CryptSetup) (connection : Option (List UInt8))
  | forceTcpChanged (newForce : Bool) (connection : Option (List UInt8))
  | sendRaw (payload : List UInt8)
  | readerPoll (datagram : Option Datagram) (cooldownOver : Bool) (outbound : TrySend)
  | readerEnded
deriving DecidableEq

namespace UdpClient

def sendRaw (client : UdpClient) (payload : List UInt8) : UdpClient × List UdpEffect :=
  match client.udpSender with
  | none => (client, [])
  | some crypt =>
      match crypt.encrypt payload with
      | (.ok packet, crypt) =>
          ({ client with udpSender := some crypt },
            [.encrypted crypt.rawKey crypt.encryptIv packet])
      | (.error _, crypt) => ({ client with udpSender := some crypt }, [])

/-- `start_udp`: set up both directions from the key material, replace the reader
and the sender, and send the initial ping. -/
def startUdp (aes : Aes128) (crypto : StoredCrypto) (connection : Option (List UInt8))
    (client : UdpClient) : UdpClient × List UdpEffect :=
  match (Ocb2CryptState.new aes).setKey aes crypto.key crypto.clientNonce crypto.serverNonce with
  | .error _ => (client, [])
  | .ok encryptCrypt =>
      match (Ocb2CryptState.new aes).setKey aes crypto.key crypto.clientNonce
        crypto.serverNonce with
      | .error _ => (client, [])
      | .ok decryptCrypt =>
          match connection with
          | none => (client, [])
          | some ping =>
              let client :=
                { client with
                  udpReader := some { crypt := decryptCrypt }
                  udpSender := some encryptCrypt }
              let (client, effects) := client.sendRaw ping
              (client, effects ++ [.audioTransportChanged true])

/-- `try_send` on the nonce channel; nothing happens without a reader, and a full or
closed channel drops the nonce. -/
def pushServerNonce (client : UdpClient) (serverNonce : List UInt8) : UdpClient :=
  match client.udpReader with
  | none => client
  | some reader =>
      if reader.HasRoom then
        { client with
          udpReader := some
            { reader with serverNonceRx := reader.serverNonceRx ++ [serverNonce] } }
      else client

def handleCryptSetup (aes : Aes128) (setup : CryptSetup) (connection : Option (List UInt8))
    (client : UdpClient) : UdpClient × List UdpEffect :=
  match setup.key, setup.clientNonce, setup.serverNonce with
  | some key, some clientNonce, some serverNonce =>
      -- Always store the crypto material so UDP can be enabled later.
      let crypto : StoredCrypto := { key, clientNonce, serverNonce }
      let client := { client with storedCrypto := some crypto }
      if client.forceTcp then (client, [.audioTransportChanged false])
      else startUdp aes crypto connection client
  | _, _, some serverNonce => (client.pushServerNonce serverNonce, [])
  | _, _, none => (client, [])

def handleForceTcpChange (aes : Aes128) (connection : Option (List UInt8)) (client : UdpClient) :
    UdpClient × List UdpEffect :=
  if client.forceTcp then
    ({ client with udpReader := none, udpSender := none }, [.audioTransportChanged false])
  else
    match client.storedCrypto with
    | some crypto => startUdp aes crypto connection client
    | none => (client, [])

section UdpAllowed

variable {aes : Aes128} {client : UdpClient} {connection : Option (List UInt8)}

theorem handleCryptSetup_full (hforce : client.forceTcp = false)
    (key clientNonce serverNonce : List UInt8) :
    handleCryptSetup aes ⟨some key, some clientNonce, some serverNonce⟩ connection client =
      startUdp aes { key, clientNonce, serverNonce } connection
        { client with storedCrypto := some { key, clientNonce, serverNonce } } := by
  simp [handleCryptSetup, hforce]

theorem handleForceTcpChange_of_some {crypto : StoredCrypto}
    (hstored : client.storedCrypto = some crypto) :
    handleForceTcpChange aes connection { client with forceTcp := false } =
      startUdp aes crypto connection { client with forceTcp := false } := by
  simp [handleForceTcpChange, hstored]

theorem handleForceTcpChange_of_none (hstored : client.storedCrypto = none) :
    handleForceTcpChange aes connection { client with forceTcp := false } =
      ({ client with forceTcp := false }, []) := by
  simp [handleForceTcpChange, hstored]

end UdpAllowed

end UdpClient

namespace UdpReader

def resyncFailureThreshold : Nat := 50

def saturatingSucc (n : Nat) : Nat := min (n + 1) (2 ^ 32 - 1)

def receive (reader : UdpReader) (data : List UInt8) (cooldownOver : Bool) (outbound : TrySend) :
    UdpReader × List UdpEffect :=
  match reader.crypt.decrypt data with
  | (.ok plaintext, crypt) =>
      ({ reader with crypt, consecutiveFailures := 0 },
        (reader.crypt.nonceOf data).toList.map fun step =>
          .accepted crypt.rawKey step.iv plaintext)
  | (.error _, crypt) =>
      let failures := saturatingSucc reader.consecutiveFailures
      let reader := { reader with crypt, consecutiveFailures := failures }
      if failures ≥ resyncFailureThreshold ∧ cooldownOver then
        match outbound with
        | .sent => ({ reader with consecutiveFailures := 0 }, [.resyncRequested])
        | .full => (reader, [])
        | .closed => ({ reader with running := false }, [])
      else (reader, [])

/-- One turn of `udp_reader_loop`: the select is biased, so a waiting nonce is taken
before any datagram. -/
def poll (reader : UdpReader) (datagram : Option Datagram) (cooldownOver : Bool)
    (outbound : TrySend) : UdpReader × List UdpEffect :=
  if !reader.running then (reader, [])
  else
    match reader.serverNonceRx, datagram with
    | nonce :: rest, _ =>
        ({ reader with
          crypt := reader.crypt.setDecryptIv nonce
          serverNonceRx := rest
          consecutiveFailures := 0 }, [])
    | [], some datagram => reader.receive datagram.bytes cooldownOver outbound
    | [], none => (reader, [])

end UdpReader

namespace UdpClient

def publishStats (client : UdpClient) (reader : UdpReader) (effects : List UdpEffect) :
    PacketStats :=
  if effects.any UdpEffect.isAccepted then reader.crypt.stats else client.decryptStats

def step (aes : Aes128) (client : UdpClient) : UdpEvent → UdpClient × List UdpEffect
  | .cryptSetup setup connection => handleCryptSetup aes setup connection client
  | .forceTcpChanged newForce connection =>
      if newForce ≠ client.forceTcp then
        handleForceTcpChange aes connection { client with forceTcp := newForce }
      else (client, [])
  | .sendRaw payload => client.sendRaw payload
  | .readerPoll datagram cooldownOver outbound =>
      match client.udpReader with
      | none => (client, [])
      | some reader =>
          let (reader, effects) := reader.poll datagram cooldownOver outbound
          ({ client with
            udpReader := some reader
            decryptStats := client.publishStats reader effects }, effects)
  | .readerEnded =>
      match client.udpReader with
      | none => (client, [])
      | some reader => ({ client with udpReader := some { reader with running := false } }, [])

def start (forceTcp : Bool) : UdpClient := { forceTcp }

/-! ## What the operations do -/

theorem sendRaw_eq (client : UdpClient) {crypt : Ocb2CryptState}
    (hsender : client.udpSender = some crypt) (hinit : crypt.initialized = true)
    (payload : List UInt8) :
    client.sendRaw payload =
      ({ client with udpSender := some { crypt with encryptIv := crypt.encryptIv.incrIv } },
        [.encrypted crypt.rawKey crypt.encryptIv.incrIv
          (Ocb2CryptState.sealPacket crypt.cipher crypt.encryptIv.incrIv payload)]) := by
  simp only [sendRaw, hsender, Ocb2CryptState.encrypt_of_initialized hinit]

def Usable (crypto : StoredCrypto) (k c s : Block) : Prop :=
  k.bytes = crypto.key ∧ c.bytes = crypto.clientNonce ∧ s.bytes = crypto.serverNonce

/-- Either UDP is left as it is, or both directions start from the key material and the initial
ping takes the first nonce. -/
theorem startUdp_cases (aes : Aes128) (crypto : StoredCrypto) (connection : Option (List UInt8))
    (client : UdpClient) :
    (startUdp aes crypto connection client = (client, []) ∧
      ¬ ∃ k c s ping, Usable crypto k c s ∧ connection = some ping) ∨
    ∃ k c s ping, Usable crypto k c s ∧ connection = some ping ∧
      startUdp aes crypto connection client =
        ({ client with
          udpReader := some { crypt := (Ocb2CryptState.new aes).install aes k c s }
          udpSender := some
            { (Ocb2CryptState.new aes).install aes k c s with encryptIv := c.incrIv } },
          [.encrypted k c.incrIv (Ocb2CryptState.sealPacket (aes k) c.incrIv ping),
            .audioTransportChanged true]) := by
  cases hset : (Ocb2CryptState.new aes).setKey aes crypto.key crypto.clientNonce
      crypto.serverNonce with
  | error err =>
      refine .inl ⟨by simp only [startUdp, hset], ?_⟩
      rintro ⟨k, c, s, ping, ⟨hk, hc, hs⟩, -⟩
      rw [Ocb2CryptState.setKey_eq_ok_iff.mpr ⟨k, c, s, hk, hc, hs, rfl⟩] at hset
      cases hset
  | ok crypt =>
      obtain ⟨k, c, s, hk, hc, hs, rfl⟩ := Ocb2CryptState.setKey_eq_ok_iff.mp hset
      cases connection with
      | none =>
          refine .inl ⟨by simp only [startUdp, hset], ?_⟩
          rintro ⟨_, _, _, ping, -, hping⟩
          cases hping
      | some ping =>
          refine .inr ⟨k, c, s, ping, ⟨hk, hc, hs⟩, rfl, ?_⟩
          simp only [startUdp, hset]
          rw [sendRaw_eq _ rfl rfl]
          rfl

end UdpClient

namespace UdpReader

/-- A datagram changes nothing the nonces depend on, unless it is accepted. -/
theorem receive_cases (reader : UdpReader) (data : List UInt8) (cooldownOver : Bool)
    (outbound : TrySend) :
    ((reader.receive data cooldownOver outbound).1.crypt = reader.crypt ∧
      (reader.receive data cooldownOver outbound).1.serverNonceRx = reader.serverNonceRx ∧
      ((reader.receive data cooldownOver outbound).1.running = true → reader.running = true) ∧
      (reader.receive data cooldownOver outbound).2.any UdpEffect.isAccepted = false ∧
      (reader.receive data cooldownOver outbound).2.filterMap UdpEffect.encryption? = []) ∨
    ∃ ivByte tag0 tag1 tag2 ciphertext step plaintext,
      data = ivByte :: tag0 :: tag1 :: tag2 :: ciphertext ∧
      Ocb2CryptState.stepNonce reader.crypt.decryptIv ivByte = some step ∧
      Ocb2CryptState.TagMatches reader.crypt.cipher step.iv tag0 tag1 tag2 ciphertext ∧
      reader.receive data cooldownOver outbound =
        ({ reader with crypt := reader.crypt.accept step, consecutiveFailures := 0 },
          [.accepted reader.crypt.rawKey step.iv plaintext]) := by
  rcases reader.crypt.decrypt_cases data with
    ⟨err, herr⟩ | ⟨ivByte, tag0, tag1, tag2, ciphertext, step, rfl, hstep, -, htag, hok⟩
  · left
    simp only [receive, herr]
    split
    · cases outbound with
      | sent => exact ⟨rfl, rfl, id, rfl, rfl⟩
      | full => exact ⟨rfl, rfl, id, rfl, rfl⟩
      | closed => exact ⟨rfl, rfl, nofun, rfl, rfl⟩
    · exact ⟨rfl, rfl, id, rfl, rfl⟩
  · right
    refine ⟨ivByte, tag0, tag1, tag2, ciphertext, step,
      (ocbDecrypt reader.crypt.cipher ciphertext step.iv).1, rfl, hstep, htag, ?_⟩
    simp only [receive, hok, Ocb2CryptState.nonceOf, hstep]
    rfl

/-- A turn of the reader takes a nonce, or accepts a datagram while no nonce waits, or changes
nothing the nonces depend on. -/
theorem poll_cases (reader : UdpReader) (datagram : Option Datagram) (cooldownOver : Bool)
    (outbound : TrySend) :
    ((reader.poll datagram cooldownOver outbound).1.crypt = reader.crypt ∧
      (reader.poll datagram cooldownOver outbound).1.serverNonceRx = reader.serverNonceRx ∧
      ((reader.poll datagram cooldownOver outbound).1.running = true → reader.running = true) ∧
      (reader.poll datagram cooldownOver outbound).2.any UdpEffect.isAccepted = false ∧
      (reader.poll datagram cooldownOver outbound).2.filterMap UdpEffect.encryption? = []) ∨
    (∃ nonce rest, reader.serverNonceRx = nonce :: rest ∧
      reader.poll datagram cooldownOver outbound =
        ({ reader with
          crypt := reader.crypt.setDecryptIv nonce
          serverNonceRx := rest
          consecutiveFailures := 0 }, [])) ∨
    ∃ bytes origin ivByte tag0 tag1 tag2 ciphertext step plaintext,
      datagram = some ⟨bytes, origin⟩ ∧ reader.running = true ∧ reader.serverNonceRx = [] ∧
      bytes = ivByte :: tag0 :: tag1 :: tag2 :: ciphertext ∧
      Ocb2CryptState.stepNonce reader.crypt.decryptIv ivByte = some step ∧
      Ocb2CryptState.TagMatches reader.crypt.cipher step.iv tag0 tag1 tag2 ciphertext ∧
      reader.poll datagram cooldownOver outbound =
        ({ reader with crypt := reader.crypt.accept step, consecutiveFailures := 0 },
          [.accepted reader.crypt.rawKey step.iv plaintext]) := by
  obtain ⟨crypt, queue, failures, running⟩ := reader
  cases running with
  | false => exact .inl ⟨rfl, rfl, id, rfl, rfl⟩
  | true =>
      cases queue with
      | cons nonce rest => exact .inr (.inl ⟨nonce, rest, rfl, rfl⟩)
      | nil =>
          cases datagram with
          | none => exact .inl ⟨rfl, rfl, id, rfl, rfl⟩
          | some datagram =>
              obtain ⟨bytes, origin⟩ := datagram
              rcases receive_cases ⟨crypt, [], failures, true⟩ bytes cooldownOver outbound with
                hsame | ⟨ivByte, tag0, tag1, tag2, ciphertext, step, plaintext, h⟩
              · exact .inl hsame
              · exact .inr (.inr ⟨bytes, origin, ivByte, tag0, tag1, tag2, ciphertext, step,
                  plaintext, rfl, rfl, rfl, h⟩)

end UdpReader

/-- A full set-up with an all-zero key and all-zero nonces, for the examples. -/
def zeroSetup : CryptSetup :=
  { key := some Block.zero.bytes
    clientNonce := some Block.zero.bytes
    serverNonce := some Block.zero.bytes }

end FancyMumble.Client
