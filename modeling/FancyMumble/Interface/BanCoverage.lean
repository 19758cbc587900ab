import FancyMumble.Interface.BanList

/-!
# What a ban covers

A ban on the wire has sixteen bytes and a mask that counts their bits. The editor passes the mask
on as it was typed, also for an IPv4 address, whose bits come after those of its prefix.
-/

namespace FancyMumble.Interface.BanCoverage

open Lib Interface.BanList

/-! ## Bits -/

def byteBits (byte : UInt8) : List Bool := List.ofFn fun i : Fin 8 => byte.toBitVec.getMsbD i

def bits (bytes : List UInt8) : List Bool := bytes.flatMap byteBits

theorem length_byteBits (byte : UInt8) : (byteBits byte).length = 8 := List.length_ofFn

theorem byteBits_injective : Function.Injective byteBits := by
  intro a b hab
  have hbits := List.ofFn_injective hab
  refine UInt8.toBitVec_inj.mp (BitVec.eq_of_getMsbD_eq fun i hi => ?_)
  exact congrFun hbits ⟨i, hi⟩

theorem bits_cons (byte : UInt8) (bytes : List UInt8) :
    bits (byte :: bytes) = byteBits byte ++ bits bytes := rfl

theorem bits_append (bytes bytes' : List UInt8) :
    bits (bytes ++ bytes') = bits bytes ++ bits bytes' := List.flatMap_append

theorem length_bits (bytes : List UInt8) : (bits bytes).length = 8 * bytes.length := by
  induction bytes with
  | nil => rfl
  | cons byte bytes ih =>
      rw [bits_cons, List.length_append, length_byteBits, ih, List.length_cons]
      omega

theorem bits_injective : Function.Injective bits := by
  intro bytes bytes' h
  induction bytes generalizing bytes' with
  | nil =>
      have hlength := congrArg List.length h
      rw [length_bits, length_bits, List.length_nil] at hlength
      exact (List.length_eq_zero_iff.mp (by omega)).symm
  | cons byte bytes ih =>
      cases bytes' with
      | nil =>
          have hlength := congrArg List.length h
          rw [length_bits, length_bits, List.length_cons, List.length_nil] at hlength
          omega
      | cons byte' bytes' =>
          rw [bits_cons, bits_cons] at h
          have hlength : (byteBits byte).length = (byteBits byte').length := by
            rw [length_byteBits, length_byteBits]
          obtain ⟨hbyte, hbytes⟩ := List.append_inj h hlength
          rw [byteBits_injective hbyte, ih hbytes]

theorem take_bits_append {bytes bytes' : List UInt8} {mask : ℕ} (h : mask ≤ 8 * bytes.length) :
    (bits (bytes ++ bytes')).take mask = (bits bytes).take mask := by
  rw [bits_append, List.take_append_of_le_length]
  rw [length_bits]
  exact h

theorem take_bits {bytes : List UInt8} {n mask : ℕ} (h : mask ≤ 8 * n) :
    (bits bytes).take mask = (bits (bytes.take n)).take mask := by
  by_cases hn : n ≤ bytes.length
  · nth_rewrite 1 [← List.take_append_drop n bytes]
    refine take_bits_append ?_
    rw [List.length_take, min_eq_left hn]
    exact h
  · rw [List.take_of_length_le (Nat.le_of_not_le hn)]

/-! ## Clients and ranges -/

structure Client where
  bytes : List UInt8
  length_bytes : bytes.length = 16

def IsIpv4 (bytes : List UInt8) : Prop := bytes.take 12 = v4Prefix

instance (bytes : List UInt8) : Decidable (IsIpv4 bytes) := inferInstanceAs (Decidable (_ = _))

def Matches (entry : BanEntry) (client : Client) : Prop :=
  (bits client.bytes).take entry.mask.toNat = (bits entry.address).take entry.mask.toNat

def width : IpText.IpAddr → ℕ
  | .v4 _ => 32
  | .v6 _ => 128

def InRange (ip : IpText.IpAddr) (mask : ℕ) (client : Client) : Prop :=
  match ip with
  | .v4 ip =>
      IsIpv4 client.bytes ∧ (bits (client.bytes.drop 12)).take mask = (bits ip.octets).take mask
  | .v6 ip =>
      (IsIpv4 client.bytes ↔ IsIpv4 ip.octets) ∧
        (bits client.bytes).take mask = (bits ip.octets).take mask

/-- The entry that is sent for an input matches the clients in the range typed, and no other. -/
def Covers (input : BanEntryPayload) (ip : IpText.IpAddr) : Prop :=
  ∃ entry, input.toEntry = .ok entry ∧
    ∀ client, Matches entry client ↔ InRange ip input.mask.toNat client

/-- The entry that is sent for an input matches the address typed and no other. -/
def BansOnly (input : BanEntryPayload) : Prop :=
  ∃ entry, input.toEntry = .ok entry ∧ ∀ client, Matches entry client → client.bytes = entry.address

/-- The masks that mean the same for an address and for its sixteen bytes: of IPv4 addresses none,
of mapped ones those behind the prefix, and of others those that tell it from the prefix. -/
def MaskFits : IpText.IpAddr → ℕ → Prop
  | .v4 _, _ => False
  | .v6 ip, mask =>
      if IsIpv4 ip.octets then 96 ≤ mask
      else (bits ip.octets).take mask ≠ (bits v4Prefix).take mask

/-! ## What an input covers -/

def wireBytes : IpText.IpAddr → List UInt8
  | .v4 ip => v4Prefix ++ ip.octets
  | .v6 ip => ip.octets

theorem length_wireBytes (ip : IpText.IpAddr) : (wireBytes ip).length = 16 := by
  cases ip with
  | v4 ip => rfl
  | v6 ip => exact length_v6_octets ip

section Sent

variable {input : BanEntryPayload} {ip : IpText.IpAddr}
  (hparse : IpText.parse input.address.toList = some ip)

include hparse

theorem exists_toEntry :
    ∃ entry, input.toEntry = .ok entry ∧ entry.address = wireBytes ip ∧
      entry.mask = input.mask := by
  unfold BanEntryPayload.toEntry parseIpToBytes
  rw [hparse]
  cases ip with
  | v4 ip => exact ⟨_, rfl, rfl, rfl⟩
  | v6 ip => exact ⟨_, rfl, rfl, rfl⟩

theorem covers_iff_forall :
    Covers input ip ↔ ∀ client : Client,
      (bits client.bytes).take input.mask.toNat = (bits (wireBytes ip)).take input.mask.toNat ↔
        InRange ip input.mask.toNat client := by
  obtain ⟨entry, hentry, haddress, hmask⟩ := exists_toEntry hparse
  unfold Covers Matches
  constructor
  · rintro ⟨entry', hentry', hcovers⟩
    rw [hentry] at hentry'
    cases hentry'
    rwa [haddress, hmask] at hcovers
  · intro hcovers
    refine ⟨entry, hentry, ?_⟩
    rwa [haddress, hmask]

theorem not_bansOnly (hmask : input.mask.toNat ≤ 120) : ¬BansOnly input := by
  obtain ⟨entry, hentry, haddress, hsame⟩ := exists_toEntry hparse
  rintro ⟨entry', hentry', honly⟩
  rw [hentry] at hentry'
  cases hentry'
  have hlength : ((wireBytes ip).take 15).length = 15 := by
    rw [List.length_take, length_wireBytes]
    rfl
  have hlast : ∀ last : UInt8, (wireBytes ip).take 15 ++ [last] = wireBytes ip := by
    intro last
    refine (honly ⟨(wireBytes ip).take 15 ++ [last], ?_⟩ ?_).trans haddress
    · rw [List.length_append, hlength]
      rfl
    · unfold Matches
      rw [hsame, haddress, take_bits_append (by omega), ← take_bits (by omega)]
  have hzero := (hlast 0).trans (hlast 1).symm
  exact absurd (List.append_cancel_left hzero) (by decide)

end Sent

def zeroClient (front : List UInt8) (h : front.length = 12) : Client where
  bytes := front ++ [0, 0, 0, 0]
  length_bytes := by rw [List.length_append, h]; rfl

theorem not_covers_v4 {input : BanEntryPayload} {ip : IpText.Ipv4Addr}
    (hparse : IpText.parse input.address.toList = some (.v4 ip)) (hmask : input.mask.toNat ≤ 32) :
    ¬Covers input (.v4 ip) := by
  rw [covers_iff_forall hparse]
  intro hcovers
  have hbits : (bits (zeroClient (List.replicate 12 0) rfl).bytes).take input.mask.toNat =
      (bits (wireBytes (.v4 ip))).take input.mask.toNat := by
    rw [take_bits (n := 4) (by omega)]
    nth_rewrite 2 [take_bits (n := 4) (by omega)]
    rfl
  have hrange := ((hcovers _).mp hbits).1
  exact absurd hrange (by decide)

theorem isIpv4_iff (bytes : List UInt8) : IsIpv4 bytes ↔ (bits bytes).take 96 = bits v4Prefix := by
  have hlength : (bits (bytes.take 12)).length ≤ 96 := by
    rw [length_bits, List.length_take]
    omega
  rw [take_bits (n := 12) le_rfl, List.take_of_length_le hlength]
  exact bits_injective.eq_iff.symm

theorem isIpv4_congr {bytes bytes' : List UInt8} {mask : ℕ} (hmask : 96 ≤ mask)
    (h : (bits bytes).take mask = (bits bytes').take mask) : IsIpv4 bytes ↔ IsIpv4 bytes' := by
  have htake := congrArg (List.take 96) h
  rw [List.take_take, List.take_take, min_eq_left hmask] at htake
  rw [isIpv4_iff, isIpv4_iff, htake]

theorem take_bits_of_isIpv4 {bytes : List UInt8} {mask : ℕ} (hmask : mask ≤ 96)
    (h : IsIpv4 bytes) : (bits bytes).take mask = (bits v4Prefix).take mask := by
  rw [← (isIpv4_iff bytes).mp h, List.take_take, min_eq_left hmask]

def nearPrefix : List UInt8 := List.replicate 10 0 ++ [0xff, 0xfe]

theorem take_bits_nearPrefix {mask : ℕ} (hmask : mask ≤ 95) :
    (bits nearPrefix).take mask = (bits v4Prefix).take mask := by
  have hbits : (bits nearPrefix).take 95 = (bits v4Prefix).take 95 := by decide
  have htake := congrArg (List.take mask) hbits
  rwa [List.take_take, List.take_take, min_eq_left hmask] at htake

theorem covers_v6_iff {input : BanEntryPayload} {ip : IpText.Ipv6Addr}
    (hparse : IpText.parse input.address.toList = some (.v6 ip)) :
    Covers input (.v6 ip) ↔ MaskFits (.v6 ip) input.mask.toNat := by
  rw [covers_iff_forall hparse]
  dsimp only [InRange, MaskFits, wireBytes]
  generalize input.mask.toNat = mask
  by_cases hv4 : IsIpv4 ip.octets
  · rw [if_pos hv4]
    constructor
    · -- an address beside the mapped ones has the same first bits
      intro hcovers
      by_contra hmask
      have hbits : (bits (zeroClient nearPrefix rfl).bytes).take mask =
          (bits ip.octets).take mask := by
        unfold zeroClient
        rw [take_bits_append (by simp [nearPrefix]; omega), take_bits_nearPrefix (by omega),
          take_bits_of_isIpv4 (by omega) hv4]
      have hfamily := ((hcovers _).mp hbits).1.mpr hv4
      exact absurd hfamily (by decide)
    · intro hmask client
      exact ⟨fun h => ⟨isIpv4_congr hmask h, h⟩, fun h => h.2⟩
  · rw [if_neg hv4]
    constructor
    · -- an IPv4 address has the same first bits
      intro hcovers hbits
      by_cases hmask : mask ≤ 96
      · have hclient : (bits (zeroClient v4Prefix rfl).bytes).take mask =
            (bits ip.octets).take mask := by
          unfold zeroClient
          rw [take_bits_append (by simp [v4Prefix]; omega), hbits]
        exact hv4 (((hcovers _).mp hclient).1.mp (by decide))
      · exact hv4 ((isIpv4_congr (by omega) hbits).mpr (by decide))
    · intro hbits client
      refine ⟨fun h => ⟨⟨fun hclient => ?_, fun hip => absurd hip hv4⟩, h⟩, fun h => h.2⟩
      by_cases hmask : mask ≤ 96
      · exact absurd (h.symm.trans (take_bits_of_isIpv4 hmask hclient)) hbits
      · exact (isIpv4_congr (by omega) h).mp hclient

/-- The range typed is banned when the mask fits, and a new entry never bans one address only. -/
theorem ban_covers_iff (input : BanEntryPayload) (ip : IpText.IpAddr)
    (hparse : IpText.parse input.address.toList = some ip)
    (hmask : input.mask.toNat ≤ width ip) :
    (Covers input ip ↔ MaskFits ip input.mask.toNat) ∧
      ¬BansOnly { emptyBan with address := input.address } := by
  constructor
  · cases ip with
    | v4 ip => exact iff_of_false (not_covers_v4 hparse hmask) id
    | v6 ip => exact covers_v6_iff hparse
  · have hdefault : emptyBan.mask.toNat ≤ 120 := by decide
    exact not_bansOnly hparse hdefault

/-- A network of IPv6 addresses. -/
theorem network_covered :
    Covers { emptyBan with address := "2001:db8::" } (.v6 (IpText.concat [0x2001, 0xdb8] [])) := by
  refine (ban_covers_iff _ _ ?_ (by decide)).1.mpr ?_
  · rfl
  · unfold MaskFits
    decide

/-- The ban of an IPv4 network matches a client of IPv6. -/
theorem v4_network_bans_v6 :
    ¬Covers { emptyBan with address := "10.0.0.0", mask := 8 } (.v4 ⟨10, 0, 0, 0⟩) := by
  exact not_covers_v4 rfl (by decide)

end FancyMumble.Interface.BanCoverage
