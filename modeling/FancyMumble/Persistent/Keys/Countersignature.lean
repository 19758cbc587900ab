import FancyMumble.Persistent.Keys.Exchange

/-!
# Countersignatures and freshness

A trusted authority can countersign the key of an epoch. Countersignatures and answers to
requests have to be fresh; which timestamps a received message brings into a freshness
computation is listed here, since these sums can wrap.
-/

namespace FancyMumble.Persistent

def countersigFreshnessMs : UInt64 :=
  5 * 60 * 1000

/-- The answer to a request is older than the request, or more than the window newer. -/
def Stale (requestTimestamp exchangeTimestamp : UInt64) : Prop :=
  exchangeTimestamp.toNat < requestTimestamp.toNat ∨
    requestTimestamp.toNat + keyExchangeFreshnessMs.toNat < exchangeTimestamp.toNat

instance (requestTimestamp exchangeTimestamp : UInt64) :
    Decidable (Stale requestTimestamp exchangeTimestamp) :=
  inferInstanceAs (Decidable (_ ∨ _))

/-- Adding a window of five minutes to the timestamp does not wrap. -/
def FitsWindow (timestamp : UInt64) : Prop :=
  timestamp.toNat + keyExchangeFreshnessMs.toNat < 2 ^ 64

theorem validateTimestampFreshness_of_stale {requestTimestamp exchangeTimestamp : UInt64}
    (h : Stale requestTimestamp exchangeTimestamp) :
    ∃ e, validateTimestampFreshness (some requestTimestamp) exchangeTimestamp = .error e := by
  unfold validateTimestampFreshness
  dsimp only
  split
  · exact ⟨_, rfl⟩
  next hnotBefore =>
    have hlate : exchangeTimestamp > requestTimestamp + keyExchangeFreshnessMs := by
      have hwindow : keyExchangeFreshnessMs.toNat = 300000 := by decide
      rw [UInt64.lt_iff_toNat_lt] at hnotBefore
      have hsum := h.resolve_left hnotBefore
      have hlt := exchangeTimestamp.toNat_lt
      rw [gt_iff_lt, UInt64.lt_iff_toNat_lt, UInt64.toNat_add, hwindow]
      omega
    exact ⟨_, if_pos hlate⟩

structure Countersignature where
  channelId : UInt32
  epoch : UInt32
  epochFp : List UInt8
  parentFp : List UInt8
  signerHash : String
  distributorHash : String
  timestamp : UInt64
  countersignature : List UInt8

namespace KeyManager

def verifyCountersignatureInternal (crypto : Crypto) (now : UInt64) (km : KeyManager)
    (c : Countersignature) : Except Error Unit :=
  if now > countersigFreshnessMs + c.timestamp then
    .error (.invalidState "countersignature timestamp too old")
  else
    match km.peerKeys c.signerHash with
    | none => .error (.invalidState s!"unknown countersigner: {c.signerHash}")
    | some peer =>
        let data := buildCountersigData c.channelId c.epoch c.epochFp c.parentFp c.timestamp
          c.distributorHash
        match crypto.signatureFromSlice c.countersignature with
        | .error e => .error (.invalidState s!"invalid countersig bytes: {e}")
        | .ok sig =>
            match crypto.verify peer.signingPublic data sig with
            | .error e => .error (.invalidState s!"countersignature invalid: {e}")
            | .ok () => .ok ()

def promoteEpochKey (km : KeyManager) (channelId epoch : UInt32) : KeyManager :=
  match km.epochKeys channelId with
  | some epochs =>
      match epochs.lookup epoch with
      | some (key, _) =>
          { km with
            epochKeys := Function.update km.epochKeys channelId
              (some (epochs.replace epoch (key, .verified))) }
      | none => km
  | none => km

def verifyCountersignature (crypto : Crypto) (now : UInt64) (km : KeyManager)
    (c : Countersignature) (keyCustodians : List String) :
    KeyManager × Except Error KeyTrustLevel :=
  match km.verifyCountersignatureInternal crypto now c with
  | .error e => (km, .error e)
  | .ok () =>
      if !km.isTrustedAuthority c.signerHash c.channelId keyCustodians then
        (km, .error (.invalidState "countersigner is not a trusted authority"))
      else
        (km.promoteEpochKey c.channelId c.epoch, .ok .verified)

def countersigned (crypto : Crypto) (now : UInt64) (km : KeyManager) (c : Countersignature)
    (keyCustodians : List String) : KeyManager :=
  (km.verifyCountersignature crypto now c keyCustodians).1

/-- The countersignature that comes with an exchange; eight zeros stand for an absent
parent. -/
def inlineCountersignature (exchange : PchatKeyExchange) : Option Countersignature :=
  match exchange.countersignature, exchange.countersignerHash with
  | some countersig, some countersigner =>
      some
        { channelId := exchange.channelId
          epoch := exchange.epoch
          epochFp := exchange.epochFingerprint
          parentFp := exchange.parentFingerprint.getD (List.replicate 8 0)
          signerHash := countersigner
          distributorHash := exchange.senderHash
          timestamp := exchange.timestamp
          countersignature := countersig }
  | _, _ => none

/-- `check_inline_countersignature`: the outcome, which `receive_key_exchange` drops. -/
def checkInlineCountersignature (crypto : Crypto) (now : UInt64) (km : KeyManager)
    (exchange : PchatKeyExchange) : Option (Except Error Unit) :=
  (inlineCountersignature exchange).map (km.verifyCountersignatureInternal crypto now)

/-- The timestamps to which a window is added when an exchange is received: that of the
request, unless the signature is wrong or the answer is older, and that of the exchange,
if it is stored and comes with a countersignature. -/
def freshnessSums (crypto : Crypto) (km : KeyManager) (exchange : PchatKeyExchange)
    (requestTimestamp : Option UInt64) : List UInt64 :=
  (match km.verifyKeyExchangeSignature crypto exchange with
    | .ok () => requestTimestamp.toList.filter (· ≤ exchange.timestamp)
    | .error _ => []) ++
  (match (km.receiveKeyExchange crypto exchange requestTimestamp).2 with
    | .ok () => (inlineCountersignature exchange).toList.map Countersignature.timestamp
    | .error _ => [])

variable {crypto : Crypto} {km : KeyManager} {exchange : PchatKeyExchange}

theorem timestamp_inlineCountersignature {c : Countersignature}
    (h : inlineCountersignature exchange = some c) : c.timestamp = exchange.timestamp := by
  unfold inlineCountersignature at h
  split at h
  · cases h
    rfl
  · cases h

theorem promoteEpochKey_eq (km : KeyManager) (channelId epoch : UInt32) :
    km.promoteEpochKey channelId epoch =
      { km with epochKeys := (km.promoteEpochKey channelId epoch).epochKeys } := by
  unfold promoteEpochKey
  cases km.epochKeys channelId with
  | none => rfl
  | some epochs =>
      cases hlookup : epochs.lookup epoch with
      | none => simp only [hlookup]
      | some entry => simp only [hlookup]

theorem countersigned_cases (crypto : Crypto) (now : UInt64) (km : KeyManager)
    (c : Countersignature) (keyCustodians : List String) :
    km.countersigned crypto now c keyCustodians = km ∨
      km.countersigned crypto now c keyCustodians =
        km.promoteEpochKey c.channelId c.epoch := by
  rw [countersigned, verifyCountersignature]
  cases km.verifyCountersignatureInternal crypto now c with
  | error e => exact .inl rfl
  | ok u =>
      by_cases htrusted : km.isTrustedAuthority c.signerHash c.channelId keyCustodians = true
      · exact .inr (by rw [htrusted]; rfl)
      · exact .inl (by rw [Bool.eq_false_iff.mpr htrusted]; rfl)

theorem countersigned_eq (crypto : Crypto) (now : UInt64) (km : KeyManager)
    (c : Countersignature) (keyCustodians : List String) :
    km.countersigned crypto now c keyCustodians =
      { km with epochKeys := (km.countersigned crypto now c keyCustodians).epochKeys } := by
  rcases km.countersigned_cases crypto now c keyCustodians with hstep | hstep
  · rw [hstep]
  · rw [hstep, promoteEpochKey_eq]

theorem receiveKeyExchange_of_stale {requestTimestamp : UInt64}
    (h : Stale requestTimestamp exchange.timestamp) :
    ∃ e, km.receiveKeyExchange crypto exchange (some requestTimestamp) = (km, .error e) := by
  obtain ⟨e, hstale⟩ := validateTimestampFreshness_of_stale h
  have hopen : ∃ e, km.openKeyExchange crypto exchange (some requestTimestamp) = .error e := by
    unfold openKeyExchange
    cases km.verifyKeyExchangeSignature crypto exchange with
    | error e' => exact ⟨e', rfl⟩
    | ok u =>
        rw [hstale]
        exact ⟨e, rfl⟩
  obtain ⟨e', hopen⟩ := hopen
  exact ⟨e', by simp only [receiveKeyExchange, hopen]⟩

theorem receiveKeyExchange_ok_iff {requestTimestamp : Option UInt64} :
    (km.receiveKeyExchange crypto exchange requestTimestamp).2 = .ok () ↔
      ∃ key, km.Accepts crypto exchange requestTimestamp key := by
  rcases km.receiveKeyExchange_cases crypto exchange requestTimestamp with
    ⟨hrejected, e, hstep⟩ | ⟨key, haccepts, ⟨requestId, -, hstep⟩ | ⟨-, hstep⟩⟩
  · rw [hstep]
    exact iff_of_false nofun fun ⟨key, haccepts⟩ => hrejected key haccepts
  · rw [hstep]
    exact iff_of_true rfl ⟨key, haccepts⟩
  · rw [hstep]
    exact iff_of_true rfl ⟨key, haccepts⟩

theorem freshnessSums_fit_iff {requestTimestamp : Option UInt64} :
    (∀ t ∈ km.freshnessSums crypto exchange requestTimestamp, FitsWindow t) ↔
      (km.verifyKeyExchangeSignature crypto exchange = .ok () →
        ∀ t ∈ requestTimestamp, t ≤ exchange.timestamp → FitsWindow t) ∧
      ((∃ key, km.Accepts crypto exchange requestTimestamp key) →
        (inlineCountersignature exchange).isSome → FitsWindow exchange.timestamp) := by
  unfold freshnessSums
  rw [List.forall_mem_append, ← receiveKeyExchange_ok_iff]
  refine and_congr ?_ ?_
  · cases km.verifyKeyExchangeSignature crypto exchange with
    | error e => simp
    | ok u => cases requestTimestamp <;> simp
  · cases (km.receiveKeyExchange crypto exchange requestTimestamp).2 with
    | error e => simp
    | ok u =>
        cases hinline : inlineCountersignature exchange with
        | none => simp
        | some c => simp [timestamp_inlineCountersignature hinline]

end KeyManager

end FancyMumble.Persistent
