import FancyMumble.Transport.AudioCodec

/-!
# What becomes of an audio packet

A legacy packet comes back from the server as it was sent, with the sender's session in it,
so long as its payload fits the thirteen bits of its length. The decoders read any byte
string without a panic; only the protobuf decoder needs a first byte to be there.
-/

namespace FancyMumble.Transport

open Lib Lib.Outcome

/-! ## The length field -/

namespace LegacyAudioCodec

theorem toNat_masked_length (n : Nat) : (UInt64.ofNat n &&& 0x1FFF).toNat = n % 2 ^ 13 := by
  have hmask : (0x1FFF : UInt64).toNat = 2 ^ 13 - 1 := rfl
  have hdvd : 2 ^ 13 ∣ 2 ^ 64 := Nat.pow_dvd_pow 2 (by decide)
  rw [UInt64.toNat_and, hmask, Nat.and_two_pow_sub_one_eq_mod, UInt64.toNat_ofNat',
    Nat.mod_mod_of_dvd _ hdvd]

theorem toNat_lenTerm (audio : Audio) :
    (lenTerm audio).toNat =
      2 ^ 13 * audio.isTerminator.toNat + audio.opusData.length % 2 ^ 13 := by
  have hlt : audio.opusData.length % 2 ^ 13 < 2 ^ 13 := Nat.mod_lt _ (Nat.two_pow_pos 13)
  cases hterm : audio.isTerminator with
  | false =>
      rw [lenTerm, hterm, if_neg Bool.false_ne_true, toNat_masked_length, Bool.toNat_false,
        Nat.mul_zero, Nat.zero_add]
  | true =>
      have hbit : (0x2000 : UInt64).toNat = 2 ^ 13 * 1 := rfl
      rw [lenTerm, hterm, if_pos rfl, UInt64.toNat_or, toNat_masked_length, hbit,
        Bool.toNat_true, Nat.or_comm, Nat.two_pow_add_eq_or_of_lt hlt]

theorem lenTerm_length (audio : Audio) :
    (lenTerm audio &&& 0x1FFF).toNat = audio.opusData.length % 2 ^ 13 := by
  have hmask : (0x1FFF : UInt64).toNat = 2 ^ 13 - 1 := rfl
  rw [UInt64.toNat_and, hmask, Nat.and_two_pow_sub_one_eq_mod, toNat_lenTerm,
    Nat.mul_add_mod, Nat.mod_mod]

theorem lenTerm_terminator (audio : Audio) :
    decide (lenTerm audio &&& 0x2000 ≠ 0) = audio.isTerminator := by
  have hbit : (0x2000 : UInt64).toNat = 2 ^ 13 := rfl
  have hlt : audio.opusData.length % 2 ^ 13 < 2 ^ 13 := Nat.mod_lt _ (Nat.two_pow_pos 13)
  have hand : (lenTerm audio &&& 0x2000).toNat =
      (Nat.testBit audio.isTerminator.toNat 0).toNat * 2 ^ 13 := by
    rw [UInt64.toNat_and, hbit, Nat.and_two_pow, toNat_lenTerm, Nat.testBit_two_pow_mul_add _ hlt,
      if_neg (Nat.lt_irrefl 13), Nat.sub_self]
  have hzero : lenTerm audio &&& 0x2000 = 0 ↔ audio.isTerminator = false := by
    rw [← UInt64.toNat_inj, hand]
    cases audio.isTerminator with
    | false => decide
    | true => decide
  cases hterm : audio.isTerminator with
  | false => rw [decide_eq_false (by rw [not_not]; exact hzero.mpr hterm)]
  | true =>
      refine decide_eq_true fun h => ?_
      rw [hzero, hterm] at h
      exact Bool.noConfusion h

/-! ## The way of a packet -/

theorem sliceFrom_append {xs ys : List UInt8} {n : Nat} (h : xs.length = n) :
    (sliceFrom (xs ++ ys) n : Outcome Error (List UInt8)) = .ok ys := by
  subst h
  rw [sliceFrom_of_le (by rw [List.length_append]; omega), List.drop_left]

theorem header_audioType (x : UInt8) :
    (AudioType.opus.toU8 <<< 5 ||| (x &&& 0x1F)) >>> 5 = AudioType.opus.toU8 ∧
      (AudioType.opus.toU8 <<< 5 ||| (x &&& 0x1F)) &&& 0x1F = x &&& 0x1F := by
  have h : ∀ i : Fin 256,
      (AudioType.opus.toU8 <<< 5 ||| (UInt8.ofFin i &&& 0x1F)) >>> 5 = AudioType.opus.toU8 ∧
        (AudioType.opus.toU8 <<< 5 ||| (UInt8.ofFin i &&& 0x1F)) &&& 0x1F =
          UInt8.ofFin i &&& 0x1F := by
    decide +kernel
  exact h x.toFin

theorem decode_packet {header : UInt8} {session sequence lenTerm : UInt64} {opus : List UInt8}
    (htype : header >>> 5 = AudioType.opus.toU8) :
    decode (header :: (MumbleVarint.write session ++ (MumbleVarint.write sequence ++
        (MumbleVarint.write lenTerm ++ opus)))) =
      if opus.length < (lenTerm &&& 0x1FFF).toNat then
        .err (.invalidState
          s!"opus data truncated: need {(lenTerm &&& 0x1FFF).toNat} bytes, have {opus.length}")
      else .ok
        { header := some (.target (header &&& 0x1F).toUInt32), senderSession := session.toUInt32,
          frameNumber := sequence, opusData := opus.take (lenTerm &&& 0x1FFF).toNat,
          positionalData := [], volumeAdjustment := 0,
          isTerminator := lenTerm &&& 0x2000 ≠ 0 } := by
  generalize hs : MumbleVarint.write session = s
  generalize hq : MumbleVarint.write sequence = q
  generalize hl : MumbleVarint.write lenTerm = l
  generalize hdata : header :: (s ++ (q ++ (l ++ opus))) = data
  have hreadS (rest) : MumbleVarint.read (s ++ rest) = .ok (session, s.length) := by
    rw [← hs]
    exact MumbleVarint.read_write_append session rest
  have hreadQ (rest) : MumbleVarint.read (q ++ rest) = .ok (sequence, q.length) := by
    rw [← hq]
    exact MumbleVarint.read_write_append sequence rest
  have hreadL (rest) : MumbleVarint.read (l ++ rest) = .ok (lenTerm, l.length) := by
    rw [← hl]
    exact MumbleVarint.read_write_append lenTerm rest
  have hfirst : (index data 0 : Outcome Error UInt8) = .ok header := by
    rw [← hdata, index_cons_zero]
  have hnonempty : data.isEmpty = false := by
    rw [← hdata, List.isEmpty_cons]
  have hatS : (sliceFrom data 1 : Outcome Error _) = .ok (s ++ (q ++ (l ++ opus))) := by
    rw [← hdata]
    exact sliceFrom_append (List.length_singleton (a := header))
  have hatQ : (sliceFrom data (1 + s.length) : Outcome Error _) = .ok (q ++ (l ++ opus)) := by
    rw [← hdata, ← List.cons_append]
    exact sliceFrom_append (by rw [List.length_cons]; omega)
  have hatL : (sliceFrom data (1 + s.length + q.length) : Outcome Error _) = .ok (l ++ opus) := by
    rw [← hdata, ← List.cons_append, ← List.append_assoc]
    exact sliceFrom_append (by rw [List.length_append, List.length_cons]; omega)
  have hsplit : data = (header :: (s ++ (q ++ l))) ++ opus := by
    rw [← hdata, List.cons_append, List.append_assoc, List.append_assoc]
  have hhead : (header :: (s ++ (q ++ l))).length = 1 + s.length + q.length + l.length := by
    rw [List.length_cons, List.length_append, List.length_append]
    omega
  have hlength : data.length = 1 + s.length + q.length + l.length + opus.length := by
    rw [hsplit, List.length_append, hhead]
  rw [decode, hnonempty, if_neg Bool.false_ne_true, hfirst, ok_bind,
    if_neg (not_not_intro htype)]
  dsimp only
  rw [hatS, ok_bind, hreadS, ok_bind]
  dsimp only
  rw [hatQ, ok_bind, hreadQ, ok_bind]
  dsimp only
  rw [hatL, ok_bind, hreadL, ok_bind]
  dsimp only
  by_cases hshort : opus.length < (lenTerm &&& 0x1FFF).toNat
  · have hsub : data.length - (1 + s.length + q.length + l.length) = opus.length := by omega
    rw [if_pos hshort, if_pos (by omega), checkedSub_of_le (by omega), ok_bind, hsub]
  · have hstop : 1 + s.length + q.length + l.length + (lenTerm &&& 0x1FFF).toNat ≤ data.length := by
      omega
    rw [if_neg hshort, if_neg (by omega), slice_of_le (by omega) hstop, ok_bind]
    have hslice : (data.take (1 + s.length + q.length + l.length +
        (lenTerm &&& 0x1FFF).toNat)).drop (1 + s.length + q.length + l.length) =
        opus.take (lenTerm &&& 0x1FFF).toNat := by
      rw [hsplit, ← hhead, List.take_length_add_append, List.drop_left]
    rw [hslice]
    rfl

theorem decode_insertSession_encode {audio : Audio} {t : UInt32}
    (htarget : audio.header = some (.target t)) (ht : t.toNat < 32) (session : UInt32) :
    decode (insertSession session (encode audio)) =
      .ok { audio with
        senderSession := session
        opusData := audio.opusData.take (audio.opusData.length % 2 ^ 13)
        positionalData := []
        volumeAdjustment := 0 } := by
  obtain ⟨htype, hlow⟩ := header_audioType t.toUInt8
  have hhead : headerTarget audio = t.toUInt8 &&& 0x1F := by
    rw [headerTarget, htarget]
  have hback : (t.toUInt8 &&& 0x1F).toUInt32 = t := by
    apply UInt32.toNat_inj.mp
    rw [UInt8.toNat_toUInt32, MumbleVarint.toNat_and_low _ 0x1F (k := 5) rfl, UInt32.toNat_toUInt8]
    omega
  have hnot : ¬audio.opusData.length < audio.opusData.length % 2 ^ 13 :=
    Nat.not_lt.mpr (Nat.mod_le _ _)
  rw [encode, insertSession, hhead, List.append_assoc, decode_packet htype, lenTerm_length,
    if_neg hnot, hlow, hback, lenTerm_terminator, UInt32.toUInt32_toUInt64, htarget]

/-! ## No decoder panics -/

theorem noPanic_read_from {data : List UInt8} {pos : Nat} (hpos : pos ≤ data.length) {α : Type}
    {f : UInt64 × Nat → Outcome Error α}
    (hf : ∀ v n, pos + n ≤ data.length → NoPanic (f (v, n))) :
    NoPanic (sliceFrom data pos >>= fun rest => MumbleVarint.read rest >>= f) := by
  rw [sliceFrom_of_le hpos, ok_bind, noPanic_bind]
  obtain ⟨hread, hwithin⟩ := MumbleVarint.within_read (data.drop pos)
  refine ⟨hread, ?_⟩
  rintro ⟨v, n⟩ hok
  have hn := hwithin v n hok
  rw [List.length_drop] at hn
  exact hf v n (by omega)

theorem noPanic_decode (data : List UInt8) : NoPanic (decode data) := by
  rw [decode]
  by_cases hempty : data.isEmpty = true
  · rw [if_pos hempty]
    exact noPanic_err _
  have hpos : 0 < data.length := by
    rw [List.length_pos_iff]
    rintro rfl
    exact hempty rfl
  rw [if_neg hempty, index_of_lt hpos, ok_bind]
  dsimp only
  by_cases htype : data[0] >>> 5 ≠ AudioType.opus.toU8
  · rw [if_pos htype]
    exact noPanic_err _
  rw [if_neg htype]
  refine noPanic_read_from hpos fun session n hn => ?_
  refine noPanic_read_from hn fun sequence n' hn' => ?_
  refine noPanic_read_from hn' fun lenTerm n'' hn'' => ?_
  dsimp only
  by_cases hshort : 1 + n + n' + n'' + (lenTerm &&& 0x1FFF).toNat > data.length
  · rw [if_pos hshort, checkedSub_of_le hn'', ok_bind]
    exact noPanic_err _
  · rw [if_neg hshort, slice_of_le (by omega) (by omega), ok_bind]
    exact noPanic_ok _

end LegacyAudioCodec

namespace ProtobufAudioCodec

theorem noPanic_decode_iff (prost : Prost) (data : List UInt8) :
    NoPanic (decode prost data) ↔ data ≠ [] := by
  rw [decode, noPanic_bind, noPanic_index, List.length_pos_iff]
  constructor
  · exact And.left
  · intro hne
    refine ⟨hne, fun first _ => ?_⟩
    have hpos : 0 < data.length := List.length_pos_iff.mpr hne
    rw [sliceFrom_of_le hpos, ok_bind, noPanic_bind]
    exact ⟨noPanic_ofExcept _ _, fun audio _ => noPanic_ok _⟩

end ProtobufAudioCodec

theorem noPanic_decodeTunnelAudio (prost : Prost) (data : List UInt8) :
    NoPanic (decodeTunnelAudio prost data) := by
  rw [decodeTunnelAudio]
  by_cases hempty : data.isEmpty = true
  · rw [if_pos hempty]
    exact noPanic_err _
  have hne : data ≠ [] := fun h => hempty (by rw [h]; rfl)
  rw [if_neg hempty, index_of_lt (List.length_pos_iff.mpr hne), ok_bind, noPanic_bind]
  refine ⟨noPanic_ofExcept _ _, fun audioType _ => ?_⟩
  cases audioType with
  | protobuf => exact (ProtobufAudioCodec.noPanic_decode_iff prost data).mpr hne
  | opus => exact LegacyAudioCodec.noPanic_decode data

/-! ## Packets and byte strings together -/

def DecodersTotal (prost : Prost) (data : List UInt8) : Prop :=
  NoPanic (MumbleVarint.read data) ∧ NoPanic (LegacyAudioCodec.decode data) ∧
    NoPanic (ProtobufAudioCodec.decode prost data) ∧ NoPanic (decodeTunnelAudio prost data)

/-- A packet comes back as it was, with the session in it; one whose payload has no length in
thirteen bits is refused. -/
def RoundTrips (session : UInt32) (audio : Audio) : Prop :=
  if audio.opusData.length < 2 ^ 13 then
    LegacyAudioCodec.decode (insertSession session (LegacyAudioCodec.encode audio)) =
      .ok { audio with senderSession := session }
  else
    ∃ e, LegacyAudioCodec.decode (insertSession session (LegacyAudioCodec.encode audio)) = .err e

theorem decodersTotal_iff (prost : Prost) (data : List UInt8) :
    DecodersTotal prost data ↔ data ≠ [] := by
  constructor
  · intro h
    exact (ProtobufAudioCodec.noPanic_decode_iff prost data).mp h.2.2.1
  · intro hne
    exact ⟨(MumbleVarint.within_read data).1, LegacyAudioCodec.noPanic_decode data,
      (ProtobufAudioCodec.noPanic_decode_iff prost data).mpr hne,
      noPanic_decodeTunnelAudio prost data⟩

theorem roundTrips_iff {audio : Audio} {t : UInt32} (htarget : audio.header = some (.target t))
    (ht : t.toNat < 32) (session : UInt32) :
    RoundTrips session audio ↔
      audio.opusData.length < 2 ^ 13 ∧ audio.positionalData = [] ∧
        audio.volumeAdjustment = 0 := by
  have hdecode := LegacyAudioCodec.decode_insertSession_encode htarget ht session
  by_cases hfits : audio.opusData.length < 2 ^ 13
  · rw [RoundTrips, if_pos hfits, hdecode, Nat.mod_eq_of_lt hfits, List.take_length]
    cases audio with
    | mk header senderSession frameNumber opusData positionalData volumeAdjustment isTerminator =>
        simp only [Outcome.ok.injEq, Audio.mk.injEq, true_and, and_true]
        constructor
        · rintro ⟨hpositional, hvolume⟩
          exact ⟨hfits, hpositional.symm, hvolume.symm⟩
        · rintro ⟨-, hpositional, hvolume⟩
          exact ⟨hpositional.symm, hvolume.symm⟩
  · rw [RoundTrips, if_neg hfits, hdecode]
    constructor
    · rintro ⟨e, he⟩
      cases he
    · intro h
      exact absurd h.1 hfits

/-- Varints are read back as they were written. The rest holds of a packet without positional
data or volume whose payload is shorter than 8192 bytes, and of byte strings that have a
first byte. -/
theorem legacyAudio_lawful_iff (prost : Prost) {audio : Audio} {t : UInt32}
    (htarget : audio.header = some (.target t)) (ht : t.toNat < 32) (session : UInt32)
    (v : UInt64) (rest data : List UInt8) :
    MumbleVarint.read (MumbleVarint.write v ++ rest) = .ok (v, (MumbleVarint.write v).length) ∧
        RoundTrips session audio ∧ DecodersTotal prost data ↔
      (audio.opusData.length < 2 ^ 13 ∧ audio.positionalData = [] ∧
        audio.volumeAdjustment = 0) ∧ data ≠ [] := by
  rw [roundTrips_iff htarget ht, decodersTotal_iff]
  constructor
  · exact And.right
  · intro h
    exact ⟨MumbleVarint.read_write_append v rest, h⟩

private def silentAudio : Audio :=
  { header := none, senderSession := 0, frameNumber := 0, opusData := [], positionalData := [],
    volumeAdjustment := 0, isTerminator := false }

private def emptyProst : Prost where
  encodeToVec _ := []
  decode payload := if payload = [] then .ok silentAudio else .error "invalid wire type"

private def spokenAudio (opusData : List UInt8) : Audio :=
  { silentAudio with header := some (.target 3), frameNumber := 300, opusData := opusData }

theorem legacyAudio_lawful_iff_spoken :
    (spokenAudio [1, 2, 3]).header = some (.target 3) ∧ (3 : UInt32).toNat < 32 ∧
      (MumbleVarint.read (MumbleVarint.write 0x4000 ++ [7]) =
          .ok (0x4000, (MumbleVarint.write 0x4000).length) ∧
        RoundTrips 9 (spokenAudio [1, 2, 3]) ∧ DecodersTotal emptyProst [0]) :=
  ⟨rfl, by decide, (legacyAudio_lawful_iff emptyProst rfl (by decide) 9 0x4000 [7] [0]).mpr
    ⟨⟨by decide, rfl, rfl⟩, List.cons_ne_nil _ _⟩⟩

/-- A payload of 8192 bytes comes back empty, and no bytes at all panic. -/
theorem legacyAudio_misframed_and_panics :
    ¬RoundTrips 9 (spokenAudio (List.replicate 8192 1)) ∧ ¬DecodersTotal emptyProst [] := by
  constructor
  · have hlength : (List.replicate 8192 (1 : UInt8)).length = 8192 := List.length_replicate
    revert hlength
    generalize List.replicate 8192 (1 : UInt8) = opus
    intro hlength h
    have hheader : (spokenAudio opus).header = some (.target 3) := rfl
    have hfits : opus.length < 2 ^ 13 := ((roundTrips_iff hheader (by decide) 9).mp h).1
    omega
  · intro h
    exact (decodersTotal_iff emptyProst []).mp h rfl

end FancyMumble.Transport
