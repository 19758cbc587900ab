import FancyMumble.Lib.IpText
import FancyMumble.Lib.Runs
import Mathlib.Data.List.Forall2

/-!
# The ban list editor

The ban list of a server is shown with addresses in text, edited, and sent back as a whole. The
round trip keeps every entry as long as all addresses have the form of an IP address.
-/

namespace FancyMumble.Interface.BanList

open Lib

/-! ## Addresses in text -/

def hexByte (byte : UInt8) : List Char :=
  [Nat.digitChar (byte.toNat / 16), Nat.digitChar (byte.toNat % 16)]

/-- Ten zeros and two bytes of ones: what an IPv4 address begins with in sixteen bytes. -/
def v4Prefix : List UInt8 := List.replicate 10 0 ++ [0xff, 0xff]

def segments : List UInt8 → List UInt16
  | high :: low :: bytes => IpText.fromBeBytes high low :: segments bytes
  | _ => []

def formatOctets (bytes : List UInt8) : List Char :=
  ['.'].intercalate (bytes.map IpText.writeOctet)

def formatIpAddress (bytes : List UInt8) : String :=
  String.ofList <|
    if bytes.length = 4 then formatOctets bytes
    else if bytes.length = 16 then
      if bytes.take 12 = v4Prefix then formatOctets (bytes.drop 12)
      else IpText.writeGroups (segments bytes)
    else bytes.flatMap hexByte

def parseIpToBytes (addr : String) : Except String (List UInt8) :=
  match IpText.parse addr.toList with
  | none => .error "Invalid IP address: invalid IP address syntax"
  | some (.v4 ip) => .ok (v4Prefix ++ ip.octets)
  | some (.v6 ip) => .ok ip.octets

/-! ## Entries -/

structure BanEntry where
  address : List UInt8
  mask : UInt32
  name : Option String := none
  hash : Option String := none
  reason : Option String := none
  start : Option String := none
  duration : Option UInt32 := none

structure BanEntryPayload where
  address : String
  mask : UInt32
  name : String
  hash : String
  reason : String
  start : String
  duration : UInt32

def BanEntry.toPayload (b : BanEntry) : BanEntryPayload where
  address := formatIpAddress b.address
  mask := b.mask
  name := b.name.getD ""
  hash := b.hash.getD ""
  reason := b.reason.getD ""
  start := b.start.getD ""
  duration := b.duration.getD 0

def handle (bans : List BanEntry) : List BanEntryPayload := bans.map BanEntry.toPayload

def nonEmpty (text : String) : Option String := if text.isEmpty then none else some text

def BanEntryPayload.toEntry (b : BanEntryPayload) : Except String BanEntry := do
  let address ← parseIpToBytes b.address
  return {
    address := address
    mask := b.mask
    name := nonEmpty b.name
    hash := nonEmpty b.hash
    reason := nonEmpty b.reason
    start := nonEmpty b.start
    duration := if b.duration = 0 then none else some b.duration }

def updateBanList (isConnected : Bool) (bans : List BanEntryPayload) :
    Except String (List BanEntry) := do
  let entries ← bans.mapM BanEntryPayload.toEntry
  if isConnected then return entries
  else throw "Not connected"

/-! ## The editor -/

def emptyBan : BanEntryPayload where
  address := ""
  mask := 32
  name := ""
  hash := ""
  reason := ""
  start := ""
  duration := 0

structure BanListTab where
  bans : List BanEntryPayload := []
  selectedIdx : Option ℕ := none
  editing : Option BanEntryPayload := none
  dirty : Bool := false

namespace BanListTab

def load (payload : List BanEntryPayload) : BanListTab := { bans := payload }

def handleSelect (self : BanListTab) (idx : ℕ) : BanListTab :=
  { self with selectedIdx := some idx, editing := self.bans[idx]?, dirty := false }

def handleAdd (self : BanListTab) : BanListTab where
  bans := self.bans ++ [emptyBan]
  selectedIdx := some self.bans.length
  editing := some emptyBan
  dirty := true

def handleRemove (self : BanListTab) : BanListTab :=
  match self.selectedIdx with
  | none => self
  | some idx => { bans := self.bans.eraseIdx idx, dirty := true }

def patchEditing (self : BanListTab) (patch : BanEntryPayload → BanEntryPayload) : BanListTab :=
  { self with editing := self.editing.map patch, dirty := true }

def finalBans (self : BanListTab) : List BanEntryPayload :=
  match self.selectedIdx, self.editing with
  | some idx, some editing => self.bans.set idx editing
  | _, _ => self.bans

def handleApplyEdit (self : BanListTab) : BanListTab := { self with bans := self.finalBans }

def handleSave (self : BanListTab) (isConnected : Bool) : Except String (List BanEntry) :=
  updateBanList isConnected self.finalBans

theorem finalBans_handleSelect (self : BanListTab) (idx : ℕ) :
    (self.handleSelect idx).finalBans = self.bans := by
  unfold handleSelect finalBans
  cases hban : self.bans[idx]? with
  | none => rfl
  | some ban =>
      obtain ⟨hidx, rfl⟩ := List.getElem?_eq_some_iff.mp hban
      exact List.set_getElem_self hidx

theorem finalBans_handleApplyEdit (self : BanListTab) :
    self.handleApplyEdit.finalBans = self.finalBans := by
  unfold handleApplyEdit finalBans
  cases self.selectedIdx with
  | none => rfl
  | some idx =>
      cases self.editing with
      | none => rfl
      | some editing => simp

inductive Edit where
  | select (idx : ℕ)
  | add
  | remove
  | patch (patch : BanEntryPayload → BanEntryPayload)
  | applyEdit

def edit (self : BanListTab) : Edit → BanListTab
  | .select idx => self.handleSelect idx
  | .add => self.handleAdd
  | .remove => self.handleRemove
  | .patch patch => self.patchEditing patch
  | .applyEdit => self.handleApplyEdit

/-- What an edit does to the list that is saved. Selecting drops a patch that was not applied,
and so does adding; a new entry is added at the end. -/
theorem finalBans_edit (self : BanListTab) (event : Edit) :
    (self.edit event).finalBans =
      match event with
      | .select _ => self.bans
      | .add => self.bans ++ [emptyBan]
      | .remove =>
          match self.selectedIdx with
          | none => self.finalBans
          | some idx => self.bans.eraseIdx idx
      | .patch patch =>
          match self.selectedIdx, self.editing with
          | some idx, some editing => self.bans.set idx (patch editing)
          | _, _ => self.bans
      | .applyEdit => self.finalBans := by
  cases event with
  | select idx => exact finalBans_handleSelect self idx
  | add => simp [edit, handleAdd, finalBans]
  | remove =>
      unfold edit handleRemove
      cases self.selectedIdx with
      | none => rfl
      | some idx => rfl
  | patch patch =>
      unfold edit patchEditing finalBans
      cases self.selectedIdx with
      | none => rfl
      | some idx =>
          cases self.editing with
          | none => rfl
          | some editing => rfl
  | applyEdit => exact finalBans_handleApplyEdit self

def Edit.LeavesList : Edit → Prop
  | .select _ | .applyEdit => True
  | .add | .remove | .patch _ => False

theorem finalBans_unedited (payload : List BanEntryPayload) {events : List Edit}
    (h : ∀ event ∈ events, event.LeavesList) :
    (Lib.Runs.run edit (load payload) events).finalBans = payload := by
  have hstep (self : BanListTab) (event : Edit)
      (hself : self.bans = payload ∧ self.finalBans = payload) (hevent : event.LeavesList) :
      (self.edit event).bans = payload ∧ (self.edit event).finalBans = payload := by
    rw [finalBans_edit]
    cases event with
    | select idx => exact ⟨hself.1, hself.1⟩
    | applyEdit => exact ⟨hself.2, hself.2⟩
    | add | remove | patch => exact hevent.elim
  exact (Lib.Runs.invariant_run hstep ⟨rfl, rfl⟩ (Lib.Runs.along_of_mem h)).2

end BanListTab

/-! ## Round trips of addresses -/

theorem formatOctets_writeIpv4Addr (ip : IpText.Ipv4Addr) :
    formatOctets ip.octets = IpText.writeIpv4Addr ip := by
  simp [formatOctets, IpText.Ipv4Addr.octets, IpText.writeIpv4Addr]

theorem exists_octets {bytes : List UInt8} (h : bytes.length = 4) :
    ∃ ip : IpText.Ipv4Addr, ip.octets = bytes := by
  obtain ⟨a, b, c, d, rfl⟩ := List.length_eq_four.mp h
  exact ⟨⟨a, b, c, d⟩, rfl⟩

theorem exists_pair {bytes : List UInt8} {n : ℕ} (h : bytes.length = 2 * (n + 1)) :
    ∃ high low rest, bytes = high :: low :: rest := by
  match bytes, h with
  | high :: low :: rest, _ => exact ⟨high, low, rest, rfl⟩

theorem length_segments {bytes : List UInt8} {n : ℕ} (h : bytes.length = 2 * n) :
    (segments bytes).length = n := by
  induction n generalizing bytes with
  | zero =>
      rw [List.length_eq_zero_iff.mp h]
      rfl
  | succ n ih =>
      obtain ⟨high, low, rest, rfl⟩ := exists_pair h
      have hrest : rest.length = 2 * n := by
        simp only [List.length_cons] at h
        omega
      rw [segments, List.length_cons, ih hrest]

theorem flatMap_segments {bytes : List UInt8} {n : ℕ} (h : bytes.length = 2 * n) :
    (segments bytes).flatMap IpText.beBytes = bytes := by
  induction n generalizing bytes with
  | zero =>
      rw [List.length_eq_zero_iff.mp h]
      rfl
  | succ n ih =>
      obtain ⟨high, low, rest, rfl⟩ := exists_pair h
      have hrest : rest.length = 2 * n := by
        simp only [List.length_cons] at h
        omega
      rw [segments, List.flatMap_cons, IpText.beBytes_fromBeBytes, ih hrest]
      rfl

theorem length_v6_octets (ip : IpText.Ipv6Addr) : ip.octets.length = 16 := by
  unfold IpText.Ipv6Addr.octets
  rw [List.length_flatMap]
  simp [IpText.beBytes]

theorem exists_groups {bytes : List UInt8} (h : bytes.length = 16) :
    ∃ ip : IpText.Ipv6Addr, List.ofFn ip = segments bytes ∧ ip.octets = bytes := by
  have hgroups : (segments bytes).length = 8 := length_segments h
  obtain ⟨ip, hip⟩ : ∃ ip : Fin 8 → UInt16, List.ofFn ip = segments bytes := by
    refine ⟨fun i => (segments bytes).get (i.cast hgroups.symm), ?_⟩
    refine List.ext_getElem (by simp only [List.length_ofFn, hgroups]) fun i h₁ h₂ => ?_
    rw [List.getElem_ofFn]
    rfl
  refine ⟨ip, hip, ?_⟩
  unfold IpText.Ipv6Addr.octets
  rw [hip, flatMap_segments (n := 8) h]

theorem parseIpToBytes_formatOctets {bytes : List UInt8} (h : bytes.length = 4) :
    parseIpToBytes (String.ofList (formatOctets bytes)) = .ok (v4Prefix ++ bytes) := by
  obtain ⟨ip, rfl⟩ := exists_octets h
  simp [parseIpToBytes, formatOctets_writeIpv4Addr, IpText.parse_writeIpv4Addr]

def canonical (bytes : List UInt8) : List UInt8 :=
  if bytes.length = 4 then v4Prefix ++ bytes else bytes

theorem parseIpToBytes_formatIpAddress {bytes : List UInt8}
    (h : bytes.length = 4 ∨ bytes.length = 16) :
    parseIpToBytes (formatIpAddress bytes) = .ok (canonical bytes) := by
  unfold formatIpAddress canonical
  by_cases hfour : bytes.length = 4
  · rw [if_pos hfour, if_pos hfour]
    exact parseIpToBytes_formatOctets hfour
  · have hsixteen : bytes.length = 16 := h.resolve_left hfour
    rw [if_neg hfour, if_neg hfour, if_pos hsixteen]
    by_cases hmapped : bytes.take 12 = v4Prefix
    · have hoctets : (bytes.drop 12).length = 4 := by
        rw [List.length_drop, hsixteen]
      rw [if_pos hmapped, parseIpToBytes_formatOctets hoctets, ← hmapped, List.take_append_drop]
    · obtain ⟨ip, hip, hbytes⟩ := exists_groups hsixteen
      rw [if_neg hmapped, ← hip]
      unfold parseIpToBytes
      rw [String.toList_ofList, IpText.parse_writeGroups, ← hbytes]

theorem notMem_hexBytes (bytes : List UInt8) {c : Char} (h : ∀ d < 16, Nat.digitChar d ≠ c) :
    c ∉ bytes.flatMap hexByte := by
  intro hmem
  obtain ⟨byte, -, hdigit⟩ := List.mem_flatMap.mp hmem
  have hbyte := byte.toNat_lt
  unfold hexByte at hdigit
  rw [List.mem_cons, List.mem_singleton] at hdigit
  rcases hdigit with hhigh | hlow
  · exact h _ (by omega) hhigh.symm
  · exact h _ (by omega) hlow.symm

theorem parseIpToBytes_of_other {bytes : List UInt8}
    (h : ¬(bytes.length = 4 ∨ bytes.length = 16)) :
    ∃ e, parseIpToBytes (formatIpAddress bytes) = .error e := by
  rw [not_or] at h
  have hnone : IpText.parse (bytes.flatMap hexByte) = none := by
    refine IpText.parse_of_notMem (fun hmem => ?_) fun hmem => ?_
    · exact absurd hmem (notMem_hexBytes bytes (by decide))
    · exact absurd hmem (notMem_hexBytes bytes (by decide))
  refine ⟨"Invalid IP address: invalid IP address syntax", ?_⟩
  unfold formatIpAddress parseIpToBytes
  rw [if_neg h.1, if_neg h.2, String.toList_ofList, hnone]


/-! ## Saving without edits -/

structure Equivalent (e e' : BanEntry) : Prop where
  address : canonical e'.address = canonical e.address
  mask : e'.mask = e.mask
  name : e'.name.getD "" = e.name.getD ""
  hash : e'.hash.getD "" = e.hash.getD ""
  reason : e'.reason.getD "" = e.reason.getD ""
  start : e'.start.getD "" = e.start.getD ""
  duration : e'.duration.getD 0 = e.duration.getD 0

def BanEntry.HasAddress (e : BanEntry) : Prop := e.address.length = 4 ∨ e.address.length = 16

theorem canonical_canonical (bytes : List UInt8) :
    canonical (canonical bytes) = canonical bytes := by
  unfold canonical
  by_cases hfour : bytes.length = 4
  · have hsixteen : (v4Prefix ++ bytes).length ≠ 4 := by
      rw [List.length_append, hfour]
      decide
    rw [if_pos hfour, if_neg hsixteen]
  · rw [if_neg hfour, if_neg hfour]

theorem nonEmpty_getD (text : String) : (nonEmpty text).getD "" = text := by
  unfold nonEmpty
  split
  · next hempty => rw [Option.getD_none, String.isEmpty_iff.mp hempty]
  · rfl

def resent (e : BanEntry) : BanEntry where
  address := canonical e.address
  mask := e.mask
  name := nonEmpty (e.name.getD "")
  hash := nonEmpty (e.hash.getD "")
  reason := nonEmpty (e.reason.getD "")
  start := nonEmpty (e.start.getD "")
  duration := if e.duration.getD 0 = 0 then none else some (e.duration.getD 0)

theorem equivalent_resent (e : BanEntry) : Equivalent e (resent e) := by
  refine ⟨canonical_canonical e.address, rfl, nonEmpty_getD _, nonEmpty_getD _, nonEmpty_getD _,
    nonEmpty_getD _, ?_⟩
  dsimp only [resent]
  split
  · next hzero => rw [Option.getD_none, hzero]
  · rfl

theorem toEntry_toPayload {e : BanEntry} (h : e.HasAddress) :
    e.toPayload.toEntry = .ok (resent e) := by
  unfold BanEntryPayload.toEntry BanEntry.toPayload
  rw [parseIpToBytes_formatIpAddress h]
  rfl

theorem toEntry_toPayload_of_other {e : BanEntry} (h : ¬e.HasAddress) :
    ∃ error, e.toPayload.toEntry = .error error := by
  obtain ⟨error, herror⟩ := parseIpToBytes_of_other h
  refine ⟨error, ?_⟩
  unfold BanEntryPayload.toEntry BanEntry.toPayload
  rw [herror]
  rfl

/-- Saving succeeds and sends the same bans in their order. -/
def BanListTab.SavesAs (self : BanListTab) (bans : List BanEntry) : Prop :=
  ∃ sent, self.handleSave true = .ok sent ∧ List.Forall₂ Equivalent bans sent

theorem mapM_eq_ok_iff {α β ε : Type} {f : α → Except ε β} {xs : List α} {ys : List β} :
    xs.mapM f = .ok ys ↔ List.Forall₂ (fun x y => f x = .ok y) xs ys := by
  induction xs generalizing ys with
  | nil =>
      rw [List.mapM_nil, List.forall₂_nil_left_iff]
      constructor
      · rintro ⟨⟩
        rfl
      · rintro rfl
        rfl
  | cons x xs ih =>
      rw [List.mapM_cons, List.forall₂_cons_left_iff]
      simp only [← ih]
      cases f x with
      | error e => simp [bind, Except.bind]
      | ok y =>
          cases xs.mapM f with
          | error e => simp [bind, Except.bind]
          | ok ys' => simp [bind, Except.bind, pure, Except.pure, eq_comm]

theorem updateBanList_eq_ok_iff {bans : List BanEntryPayload} {sent : List BanEntry} :
    updateBanList true bans = .ok sent ↔
      List.Forall₂ (fun ban entry => ban.toEntry = .ok entry) bans sent := by
  rw [← mapM_eq_ok_iff]
  unfold updateBanList
  cases bans.mapM BanEntryPayload.toEntry with
  | error e => exact Iff.rfl
  | ok entries => exact Iff.rfl

theorem exists_toEntry_of_mem {bans : List BanEntryPayload} {sent : List BanEntry}
    (h : updateBanList true bans = .ok sent) {ban : BanEntryPayload} (hban : ban ∈ bans) :
    ∃ entry, ban.toEntry = .ok entry := by
  rw [updateBanList_eq_ok_iff] at h
  obtain ⟨idx, hidx, rfl⟩ := List.getElem_of_mem hban
  exact ⟨_, h.get hidx (h.length_eq ▸ hidx)⟩

theorem not_savesAs {bans : List BanEntry} {tab : BanListTab} (h : tab.finalBans = handle bans)
    {ban : BanEntry} (hban : ban ∈ bans) (hother : ¬ban.HasAddress) : ¬tab.SavesAs bans := by
  rintro ⟨sent, hsent, -⟩
  rw [BanListTab.handleSave, h] at hsent
  obtain ⟨entry, hentry⟩ := exists_toEntry_of_mem hsent (List.mem_map_of_mem hban)
  obtain ⟨error, herror⟩ := toEntry_toPayload_of_other hother
  exact absurd (hentry.symm.trans herror) (by simp)

/-- An unedited list is saved as it came when every address has the length of one. -/
theorem unedited_save_iff (bans : List BanEntry) (tab : BanListTab)
    (h : tab.finalBans = handle bans) :
    tab.SavesAs bans ↔ ∀ ban ∈ bans, ban.HasAddress := by
  constructor
  · intro hsaves ban hban
    by_contra hother
    exact not_savesAs h hban hother hsaves
  · intro haddress
    refine ⟨bans.map resent, ?_, ?_⟩
    · unfold BanListTab.handleSave handle at *
      rw [h, updateBanList_eq_ok_iff, List.forall₂_map_left_iff, List.forall₂_map_right_iff,
        List.forall₂_same]
      exact fun ban hban => toEntry_toPayload (haddress ban hban)
    · rw [List.forall₂_map_right_iff, List.forall₂_same]
      exact fun ban _ => equivalent_resent ban

def twoBans : List BanEntry :=
  [⟨[127, 0, 0, 1], 32, none, none, some "", none, some 0⟩,
    ⟨List.replicate 15 0 ++ [1], 64, some "anna", some "hash", some "spam",
      some "2024-01-01T00:00:00", some 3600⟩]

/-- A list that was loaded, with its entries selected and applied. -/
theorem unedited_save_selected :
    (Lib.Runs.run BanListTab.edit (BanListTab.load (handle twoBans))
      [.select 1, .applyEdit, .select 0]).SavesAs twoBans := by
  refine (unedited_save_iff _ _ (BanListTab.finalBans_unedited _ ?_)).mpr ?_
  · simp [BanListTab.Edit.LeavesList]
  · simp [twoBans, BanEntry.HasAddress]

/-- A new entry has no address, and nothing is saved until it has one or is removed. -/
theorem new_entry_blocks_save (tab : BanListTab) :
    ∀ sent, (tab.edit .add).handleSave true ≠ .ok sent := by
  intro sent hsent
  rw [BanListTab.handleSave, BanListTab.finalBans_edit] at hsent
  obtain ⟨entry, hentry⟩ := exists_toEntry_of_mem hsent
    (List.mem_append_right tab.bans (List.mem_singleton_self emptyBan))
  obtain ⟨error, herror⟩ := toEntry_toPayload_of_other
    (e := ⟨[], 32, none, none, none, none, none⟩) (by simp [BanEntry.HasAddress])
  exact absurd (hentry.symm.trans herror) (by simp)

/-- One entry without an address keeps the others from being saved. -/
theorem empty_address_blocks_save :
    ¬(BanListTab.load (handle [⟨[127, 0, 0, 1], 128, none, none, none, none, none⟩,
      ⟨[], 0, some "name", none, none, none, none⟩])).SavesAs
        [⟨[127, 0, 0, 1], 128, none, none, none, none, none⟩,
          ⟨[], 0, some "name", none, none, none, none⟩] := by
  refine not_savesAs rfl (List.mem_cons_of_mem _ (List.mem_singleton_self _)) ?_
  simp [BanEntry.HasAddress]

end FancyMumble.Interface.BanList
