import FancyMumble.Persistent.Keys.Distribute

/-!
# What the signed data determines

The signed data of a message lists its fields one after the other. Fields of fixed width
and key announcements can be read back from it. The fields of variable length of a key
exchange or a countersignature run into each other, and an absent field reads like an
empty one or like the zeros that stand for it: two messages have the same signed data
exactly if they read the same there, wherever their own boundaries are.
-/

namespace FancyMumble.Persistent

open Lib

@[simp] theorem length_toBeBytes (width n : Nat) : (toBeBytes width n).length = width := by
  simp [toBeBytes]

theorem toBeBytes_inj {width m n : Nat} (hm : m < 256 ^ width) (hn : n < 256 ^ width)
    (h : toBeBytes width m = toBeBytes width n) : m = n :=
  Bytes.leBytes_inj hm hn (List.reverse_injective h)

theorem toBeBytes_uint32_inj {m n : UInt32} (h : toBeBytes 4 m.toNat = toBeBytes 4 n.toNat) :
    m = n :=
  UInt32.toNat_inj.mp (toBeBytes_inj m.toNat_lt n.toNat_lt h)

theorem toBeBytes_uint64_inj {m n : UInt64} (h : toBeBytes 8 m.toNat = toBeBytes 8 n.toNat) :
    m = n :=
  UInt64.toNat_inj.mp (toBeBytes_inj m.toNat_lt n.toNat_lt h)

theorem asBytes_inj {s t : String} (h : asBytes s = asBytes t) : s = t := by
  have hbytes := Bytes.byteArray_toList_inj h
  rwa [String.toUTF8_eq_toByteArray, String.toUTF8_eq_toByteArray,
    String.toByteArray_inj] at hbytes

theorem asBytes_empty : asBytes "" = [] := by decide +kernel

/-! ## Key exchanges -/

@[ext] structure SignedExchange where
  algorithmVersion : UInt8
  channelId : UInt32
  mode : PchatProtocol
  epoch : UInt32
  encryptedKey : List UInt8
  recipientHash : String
  requestId : Option String
  timestamp : UInt64

def PchatKeyExchange.signedFields (exchange : PchatKeyExchange) : SignedExchange where
  algorithmVersion := exchange.algorithmVersion
  channelId := exchange.channelId
  mode := .fromWireStr exchange.protocol
  epoch := exchange.epoch
  encryptedKey := exchange.encryptedKey
  recipientHash := exchange.recipientHash
  requestId := exchange.requestId
  timestamp := exchange.timestamp

namespace SignedExchange

def data (m : SignedExchange) : List UInt8 :=
  buildKeyExchangeSignedData m.algorithmVersion m.channelId m.mode m.epoch m.encryptedKey
    m.recipientHash m.requestId m.timestamp

def joined (m : SignedExchange) : List UInt8 :=
  m.encryptedKey ++ asBytes m.recipientHash ++ asBytes (m.requestId.getD "")

/-- The two read the same: they agree on the fields of fixed width, on being a full
archive or not, and on the bytes of the other fields taken together. -/
structure ReadsAs (m m' : SignedExchange) : Prop where
  algorithmVersion : m.algorithmVersion = m'.algorithmVersion
  channelId : m.channelId = m'.channelId
  fullArchive : m.mode = .fancyV1FullArchive ↔ m'.mode = .fancyV1FullArchive
  epoch : m.epoch = m'.epoch
  joined : m.joined = m'.joined
  timestamp : m.timestamp = m'.timestamp

/-- The two have one mode and the same boundaries between the fields of variable length,
and both answer a request or neither does. -/
structure SameBoundaries (m m' : SignedExchange) : Prop where
  mode : m.mode = m'.mode
  encryptedKey : m.encryptedKey.length = m'.encryptedKey.length
  recipientHash : (asBytes m.recipientHash).length = (asBytes m'.recipientHash).length
  requestId : m.requestId.isSome = m'.requestId.isSome

theorem data_eq (m : SignedExchange) :
    m.data = [m.algorithmVersion] ++ toBeBytes 4 m.channelId.toNat ++
      [if m.mode = .fancyV1FullArchive then 2 else 0] ++ toBeBytes 4 m.epoch.toNat ++
      m.joined ++ toBeBytes 8 m.timestamp.toNat := by
  simp only [data, buildKeyExchangeSignedData, SignedExchange.joined, List.append_assoc]

theorem data_eq_iff {m m' : SignedExchange} : m.data = m'.data ↔ m.ReadsAs m' := by
  rw [data_eq, data_eq]
  constructor
  · intro h
    obtain ⟨h, htimestamp⟩ := List.append_inj' h (by simp)
    obtain ⟨h, hjoined⟩ := List.append_inj h (by simp)
    obtain ⟨h, hepoch⟩ := List.append_inj h (by simp)
    obtain ⟨h, hmode⟩ := List.append_inj h (by simp)
    obtain ⟨hversion, hchannel⟩ := List.append_inj h (by simp)
    refine ⟨List.singleton_inj.mp hversion, toBeBytes_uint32_inj hchannel, ?_,
      toBeBytes_uint32_inj hepoch, hjoined, toBeBytes_uint64_inj htimestamp⟩
    have hbyte := List.singleton_inj.mp hmode
    by_cases hm : m.mode = .fancyV1FullArchive <;> by_cases hm' : m'.mode = .fancyV1FullArchive
    · exact iff_of_true hm hm'
    · rw [if_pos hm, if_neg hm'] at hbyte
      exact absurd hbyte (by decide)
    · rw [if_neg hm, if_pos hm'] at hbyte
      exact absurd hbyte (by decide)
    · exact iff_of_false hm hm'
  · rintro ⟨hversion, hchannel, hmode, hepoch, hjoined, htimestamp⟩
    simp only [hversion, hchannel, hmode, hepoch, hjoined, htimestamp]

theorem eq_of_readsAs {m m' : SignedExchange} (h : m.ReadsAs m')
    (hbounds : m.SameBoundaries m') : m = m' := by
  obtain ⟨hjoined, hrequest⟩ := List.append_inj h.joined (by
    rw [List.length_append, List.length_append, hbounds.encryptedKey, hbounds.recipientHash])
  obtain ⟨hkey, hrecipient⟩ := List.append_inj hjoined hbounds.encryptedKey
  refine SignedExchange.ext h.algorithmVersion h.channelId hbounds.mode h.epoch hkey
    (asBytes_inj hrecipient) ?_ h.timestamp
  have hsome := hbounds.requestId
  have hrequest := asBytes_inj hrequest
  cases hm : m.requestId with
  | none =>
      rw [hm] at hsome
      exact (Option.not_isSome_iff_eq_none.mp (by simp [← hsome])).symm
  | some requestId =>
      rw [hm] at hsome hrequest
      obtain ⟨requestId', hm'⟩ := Option.isSome_iff_exists.mp hsome.symm
      rw [hm'] at hrequest ⊢
      exact congrArg some hrequest

theorem sameBoundaries_refl (m : SignedExchange) : m.SameBoundaries m :=
  ⟨rfl, rfl, rfl, rfl⟩

theorem data_injective_iff (m m' : SignedExchange) :
    (m.data = m'.data → m = m') ↔ (m.ReadsAs m' → m.SameBoundaries m') := by
  rw [data_eq_iff]
  constructor
  · intro h hreads
    exact h hreads ▸ sameBoundaries_refl m
  · intro h hreads
    exact eq_of_readsAs hreads (h hreads)

end SignedExchange

theorem KeyManager.verifyKeyExchangeSignature_eq {crypto : Crypto} {km : KeyManager}
    {exchange exchange' : PchatKeyExchange}
    (hdata : exchange.signedFields.data = exchange'.signedFields.data)
    (hsender : exchange.senderHash = exchange'.senderHash)
    (hsignature : exchange.signature = exchange'.signature) :
    km.verifyKeyExchangeSignature crypto exchange =
      km.verifyKeyExchangeSignature crypto exchange' := by
  have hversion : exchange.algorithmVersion = exchange'.algorithmVersion :=
    (SignedExchange.data_eq_iff.mp hdata).algorithmVersion
  simp only [SignedExchange.data, PchatKeyExchange.signedFields, hversion] at hdata
  simp only [verifyKeyExchangeSignature, hdata, hsender, hsignature, hversion]

/-! ## Key announcements -/

/-- The fields of a key announcement that its signature is meant to cover, with public
keys of the size that is checked before the signature. -/
@[ext] structure SignedAnnounce where
  algorithmVersion : UInt8
  certHash : String
  timestamp : UInt64
  identityPublic : List UInt8
  signingPublic : List UInt8
  length_identityPublic : identityPublic.length = 32
  length_signingPublic : signingPublic.length = 32

namespace SignedAnnounce

def data (a : SignedAnnounce) : List UInt8 :=
  buildKeyAnnounceSignedData a.algorithmVersion a.certHash a.timestamp a.identityPublic
    a.signingPublic

theorem data_injective {a a' : SignedAnnounce} (h : a.data = a'.data) : a = a' := by
  unfold data buildKeyAnnounceSignedData at h
  obtain ⟨h, hsigning⟩ := List.append_inj' h
    (a.length_signingPublic.trans a'.length_signingPublic.symm)
  obtain ⟨h, hidentity⟩ := List.append_inj' h
    (a.length_identityPublic.trans a'.length_identityPublic.symm)
  obtain ⟨h, htimestamp⟩ := List.append_inj' h (by simp)
  obtain ⟨hversion, hhash⟩ := List.append_inj h rfl
  exact SignedAnnounce.ext (List.singleton_inj.mp hversion) (asBytes_inj hhash)
    (toBeBytes_uint64_inj htimestamp) hidentity hsigning

end SignedAnnounce

def PchatKeyAnnounce.signedFields (announce : PchatKeyAnnounce)
    (hidentity : announce.identityPublic.length = 32)
    (hsigning : announce.signingPublic.length = 32) : SignedAnnounce where
  algorithmVersion := announce.algorithmVersion
  certHash := announce.certHash
  timestamp := announce.timestamp
  identityPublic := announce.identityPublic
  signingPublic := announce.signingPublic
  length_identityPublic := hidentity
  length_signingPublic := hsigning

/-! ## Countersignatures -/

/-- The fields that a countersignature is meant to cover. The parent fingerprint of an
exchange can be absent. -/
@[ext] structure SignedCountersig where
  channelId : UInt32
  epoch : UInt32
  epochFp : List UInt8
  parentFp : Option (List UInt8)
  timestamp : UInt64
  distributorHash : String

namespace SignedCountersig

def signedParent (s : SignedCountersig) : List UInt8 :=
  s.parentFp.getD (List.replicate 8 0)

def data (s : SignedCountersig) : List UInt8 :=
  buildCountersigData s.channelId s.epoch s.epochFp s.signedParent s.timestamp
    s.distributorHash

def joined (s : SignedCountersig) : List UInt8 :=
  s.epochFp ++ s.signedParent ++ toBeBytes 8 s.timestamp.toNat ++ asBytes s.distributorHash

/-- The two read the same: they agree on channel and epoch, and on the bytes of the other
fields taken together. -/
structure ReadsAs (s s' : SignedCountersig) : Prop where
  channelId : s.channelId = s'.channelId
  epoch : s.epoch = s'.epoch
  joined : s.joined = s'.joined

/-- The two have fingerprints of the same sizes, and both or neither a parent. -/
structure SameBoundaries (s s' : SignedCountersig) : Prop where
  epochFp : s.epochFp.length = s'.epochFp.length
  signedParent : s.signedParent.length = s'.signedParent.length
  parentFp : s.parentFp.isSome = s'.parentFp.isSome

theorem data_eq_iff {s s' : SignedCountersig} : s.data = s'.data ↔ s.ReadsAs s' := by
  have hdata (s : SignedCountersig) :
      s.data = toBeBytes 4 s.channelId.toNat ++ toBeBytes 4 s.epoch.toNat ++ s.joined := by
    simp only [data, buildCountersigData, SignedCountersig.joined, List.append_assoc]
  rw [hdata, hdata]
  constructor
  · intro h
    obtain ⟨h, hjoined⟩ := List.append_inj h (by simp)
    obtain ⟨hchannel, hepoch⟩ := List.append_inj h (by simp)
    exact ⟨toBeBytes_uint32_inj hchannel, toBeBytes_uint32_inj hepoch, hjoined⟩
  · rintro ⟨hchannel, hepoch, hjoined⟩
    rw [hchannel, hepoch, hjoined]

theorem eq_of_readsAs {s s' : SignedCountersig} (h : s.ReadsAs s')
    (hbounds : s.SameBoundaries s') : s = s' := by
  obtain ⟨hjoined, hdistributor⟩ := List.append_inj h.joined (by
    simp [hbounds.epochFp, hbounds.signedParent])
  obtain ⟨hjoined, htimestamp⟩ := List.append_inj' hjoined (by simp)
  obtain ⟨hepochFp, hparent⟩ := List.append_inj hjoined hbounds.epochFp
  refine SignedCountersig.ext h.channelId h.epoch hepochFp ?_
    (toBeBytes_uint64_inj htimestamp) (asBytes_inj hdistributor)
  have hsome := hbounds.parentFp
  unfold signedParent at hparent
  cases hs : s.parentFp with
  | none =>
      rw [hs] at hsome
      exact (Option.not_isSome_iff_eq_none.mp (by simp [← hsome])).symm
  | some parentFp =>
      rw [hs] at hsome hparent
      obtain ⟨parentFp', hs'⟩ := Option.isSome_iff_exists.mp hsome.symm
      rw [hs'] at hparent ⊢
      exact congrArg some hparent

theorem sameBoundaries_refl (s : SignedCountersig) : s.SameBoundaries s :=
  ⟨rfl, rfl, rfl⟩

theorem data_injective_iff (s s' : SignedCountersig) :
    (s.data = s'.data → s = s') ↔ (s.ReadsAs s' → s.SameBoundaries s') := by
  rw [data_eq_iff]
  constructor
  · intro h hreads
    exact h hreads ▸ sameBoundaries_refl s
  · intro h hreads
    exact eq_of_readsAs hreads (h hreads)

end SignedCountersig

/-! ## Across the kinds -/

theorem exists_toBeBytes_uint32 {bytes : List UInt8} (h : bytes.length = 4) :
    ∃ n : UInt32, toBeBytes 4 n.toNat = bytes := by
  have hlt := Bytes.leNat_lt bytes.reverse
  have hround := Bytes.leBytes_leNat bytes.reverse
  rw [List.length_reverse, h] at hlt hround
  refine ⟨UInt32.ofNat (Bytes.leNat bytes.reverse), ?_⟩
  rw [UInt32.toNat_ofNat_of_lt' hlt, toBeBytes, hround, List.reverse_reverse]

theorem exists_toBeBytes_uint64 {bytes : List UInt8} (h : bytes.length = 8) :
    ∃ n : UInt64, toBeBytes 8 n.toNat = bytes := by
  have hlt := Bytes.leNat_lt bytes.reverse
  have hround := Bytes.leBytes_leNat bytes.reverse
  rw [List.length_reverse, h] at hlt hround
  refine ⟨UInt64.ofNat (Bytes.leNat bytes.reverse), ?_⟩
  rw [UInt64.toNat_ofNat_of_lt' hlt, toBeBytes, hround, List.reverse_reverse]

theorem exists_split {bytes : List UInt8} {n : ℕ} (h : n ≤ bytes.length) :
    ∃ front rest, bytes = front ++ rest ∧ front.length = n :=
  ⟨bytes.take n, bytes.drop n, (List.take_append_drop n bytes).symm, List.length_take_of_le h⟩

theorem exists_split_last {bytes : List UInt8} {n : ℕ} (h : n ≤ bytes.length) :
    ∃ front last, bytes = front ++ last ∧ last.length = n := by
  obtain ⟨front, last, rfl, hfront⟩ := exists_split (Nat.sub_le bytes.length n)
  rw [List.length_append] at h hfront
  exact ⟨front, last, rfl, by omega⟩

/-- Every byte string that is long enough is the signed data of some countersignature. -/
theorem SignedCountersig.exists_data_iff {bytes : List UInt8} :
    (∃ countersig : SignedCountersig, countersig.data = bytes) ↔ 16 ≤ bytes.length := by
  constructor
  · rintro ⟨countersig, rfl⟩
    simp only [data, buildCountersigData, List.length_append, length_toBeBytes]
    omega
  · intro hlength
    obtain ⟨front, last, rfl, hlast⟩ := exists_split_last (show 8 ≤ bytes.length by omega)
    rw [List.length_append, hlast] at hlength
    obtain ⟨channel, front, rfl, hchannel⟩ := exists_split (show 4 ≤ front.length by omega)
    rw [List.length_append, hchannel] at hlength
    obtain ⟨epoch, epochFp, rfl, hepoch⟩ := exists_split (show 4 ≤ front.length by omega)
    obtain ⟨channelId, rfl⟩ := exists_toBeBytes_uint32 hchannel
    obtain ⟨epoch, rfl⟩ := exists_toBeBytes_uint32 hepoch
    obtain ⟨timestamp, rfl⟩ := exists_toBeBytes_uint64 hlast
    refine ⟨⟨channelId, epoch, epochFp, some [], timestamp, ""⟩, ?_⟩
    simp [data, buildCountersigData, signedParent, asBytes_empty]

/-- A byte string is the signed data of some exchange if it is long enough and has a mode
in its place. -/
theorem SignedExchange.exists_data_iff {bytes : List UInt8} :
    (∃ exchange : SignedExchange, exchange.data = bytes) ↔
      18 ≤ bytes.length ∧ (bytes[5]? = some 0 ∨ bytes[5]? = some 2) := by
  constructor
  · rintro ⟨exchange, rfl⟩
    have hmode : exchange.data[5]? =
        some (if exchange.mode = .fancyV1FullArchive then 2 else 0) := by
      rw [data_eq]
      simp
    refine ⟨?_, ?_⟩
    · rw [data_eq]
      simp
      omega
    · rw [hmode]
      split <;> simp
  · rintro ⟨hlength, hmode⟩
    obtain ⟨front, last, rfl, hlast⟩ := exists_split_last (show 8 ≤ bytes.length by omega)
    rw [List.length_append, hlast] at hlength
    obtain ⟨version, front, rfl, hversion⟩ := exists_split (show 1 ≤ front.length by omega)
    rw [List.length_append, hversion] at hlength
    obtain ⟨channel, front, rfl, hchannel⟩ := exists_split (show 4 ≤ front.length by omega)
    rw [List.length_append, hchannel] at hlength
    obtain ⟨mode, front, rfl, hlengthMode⟩ := exists_split (show 1 ≤ front.length by omega)
    rw [List.length_append, hlengthMode] at hlength
    obtain ⟨epoch, key, rfl, hepoch⟩ := exists_split (show 4 ≤ front.length by omega)
    obtain ⟨version, rfl⟩ := List.length_eq_one_iff.mp hversion
    obtain ⟨mode, rfl⟩ := List.length_eq_one_iff.mp hlengthMode
    obtain ⟨channelId, rfl⟩ := exists_toBeBytes_uint32 hchannel
    obtain ⟨epoch, rfl⟩ := exists_toBeBytes_uint32 hepoch
    obtain ⟨timestamp, rfl⟩ := exists_toBeBytes_uint64 hlast
    have hbyte : mode = 0 ∨ mode = 2 := by
      simpa [List.getElem?_append] using hmode
    obtain rfl | rfl := hbyte
    · refine ⟨⟨version, channelId, .none, epoch, key, "", none, timestamp⟩, ?_⟩
      simp [data_eq, SignedExchange.joined, asBytes_empty]
    · refine ⟨⟨version, channelId, .fancyV1FullArchive, epoch, key, "", none, timestamp⟩, ?_⟩
      simp [data_eq, SignedExchange.joined, asBytes_empty]

/-- Nothing in the signed data tells the kinds apart: what is signed as an announcement or
an exchange is also the signed data of a countersignature, and an announcement that of an
exchange exactly if its sixth byte is a mode. -/
theorem signed_data_across_kinds (announce : SignedAnnounce) (exchange : SignedExchange) :
    (∃ countersig : SignedCountersig, countersig.data = announce.data) ∧
      (∃ countersig : SignedCountersig, countersig.data = exchange.data) ∧
      ((∃ exchange' : SignedExchange, exchange'.data = announce.data) ↔
        announce.data[5]? = some 0 ∨ announce.data[5]? = some 2) := by
  have hannounce : 73 ≤ announce.data.length := by
    simp [SignedAnnounce.data, buildKeyAnnounceSignedData, announce.length_identityPublic,
      announce.length_signingPublic]
  have hexchange := (SignedExchange.exists_data_iff.mp ⟨exchange, rfl⟩).1
  refine ⟨SignedCountersig.exists_data_iff.mpr (by omega),
    SignedCountersig.exists_data_iff.mpr (by omega), ?_⟩
  rw [SignedExchange.exists_data_iff]
  exact and_iff_right (by omega)

/-- Equal signed data means equal fields: for key announcements always, for key exchanges
and countersignatures exactly if they do not read the same with different boundaries. -/
theorem signed_data_unambiguous_iff (exchange exchange' : PchatKeyExchange)
    (announce announce' : SignedAnnounce) (countersig countersig' : SignedCountersig) :
    ((exchange.signedFields.data = exchange'.signedFields.data →
          exchange.signedFields = exchange'.signedFields) ↔
        (exchange.signedFields.ReadsAs exchange'.signedFields →
          exchange.signedFields.SameBoundaries exchange'.signedFields)) ∧
      (announce.data = announce'.data → announce = announce') ∧
      ((countersig.data = countersig'.data → countersig = countersig') ↔
        (countersig.ReadsAs countersig' → countersig.SameBoundaries countersig')) :=
  ⟨SignedExchange.data_injective_iff _ _, SignedAnnounce.data_injective,
    SignedCountersig.data_injective_iff _ _⟩

section Example

private def sealedFor (recipientHash requestId : String) : PchatKeyExchange where
  channelId := 7
  protocol := "FANCY_V1_FULL_ARCHIVE"
  encryptedKey := List.replicate 60 0
  senderHash := "peer"
  recipientHash := recipientHash
  requestId := some requestId
  timestamp := 1
  signature := []
  epochFingerprint := List.replicate 8 0

private def announceOf (certHash : String) : SignedAnnounce where
  algorithmVersion := 1
  certHash := certHash
  timestamp := 1
  identityPublic := List.replicate 32 0
  signingPublic := List.replicate 32 0
  length_identityPublic := rfl
  length_signingPublic := rfl

private def countersigBy (distributorHash : String) : SignedCountersig where
  channelId := 7
  epoch := 1
  epochFp := List.replicate 8 0
  parentFp := none
  timestamp := 1
  distributorHash := distributorHash

/-- Exchanges with two recipients, announcements of two hashes and countersignatures by two
distributors are signed differently. -/
theorem signed_data_unambiguous_example :
    (sealedFor "a" "c").signedFields.data ≠ (sealedFor "b" "c").signedFields.data ∧
      (announceOf "a").data ≠ (announceOf "b").data ∧
      (countersigBy "a").data ≠ (countersigBy "b").data := by
  obtain ⟨hexchange, hannounce, hcountersig⟩ := signed_data_unambiguous_iff (sealedFor "a" "c")
    (sealedFor "b" "c") (announceOf "a") (announceOf "b") (countersigBy "a") (countersigBy "b")
  refine ⟨fun h => ?_, fun h => ?_, fun h => ?_⟩
  · have hsame := hexchange.mpr (fun _ => ⟨rfl, rfl, by decide +kernel, rfl⟩) h
    exact absurd (congrArg SignedExchange.recipientHash hsame) (by decide)
  · exact absurd (congrArg SignedAnnounce.certHash (hannounce h)) (by decide)
  · have hsame := hcountersig.mpr (fun _ => ⟨rfl, rfl, rfl⟩) h
    exact absurd (congrArg SignedCountersig.distributorHash hsame) (by decide)

/-- The end of a recipient hash can be moved into the request identifier. -/
theorem recipient_runs_into_request :
    ¬∀ exchange exchange' : PchatKeyExchange,
      exchange.signedFields.data = exchange'.signedFields.data →
        exchange.signedFields = exchange'.signedFields := by
  intro h
  have hfields := h (sealedFor "ab" "c") (sealedFor "a" "bc") (by decide +kernel)
  exact absurd (congrArg SignedExchange.recipientHash hfields) (by decide)

end Example

end FancyMumble.Persistent
