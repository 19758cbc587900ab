import FancyMumble.Client.Pchat
import FancyMumble.Persistent.Keys.Custodians

/-!
# Partial channel updates

A `ChannelState` message carries the fields of a channel that have changed. The handler
merges them into the entry of the channel and compares its custodian list with the pinned
one. An absent field leaves the entry alone; the custodian list is a repeated field, which
is never absent.
-/

namespace FancyMumble.Client

open Lib.Runs Persistent

/-- `ChannelState`, with the fields that the handler reads. -/
structure ChannelState where
  channelId : Option UInt32 := none
  parent : Option UInt32 := none
  name : Option String := none
  description : Option String := none
  descriptionHash : Option (List UInt8) := none
  temporary : Option Bool := none
  position : Option Int32 := none
  maxUsers : Option UInt32 := none
  pchatProtocol : Option Int32 := none
  pchatMaxHistory : Option UInt32 := none
  pchatRetentionDays : Option UInt32 := none
  pchatKeyCustodians : List String := []

structure FullChannelEntry extends ChannelEntry where
  id : UInt32
  parentId : Option UInt32 := none
  name : String := ""
  description : String := ""
  descriptionHash : Option (List UInt8) := none
  userCount : UInt32 := 0
  permissions : Option UInt32 := none
  temporary : Bool := false
  position : Int32 := 0
  maxUsers : UInt32 := 0
  pchatMaxHistory : Option UInt32 := none
  pchatRetentionDays : Option UInt32 := none

/-- What the handler reads and writes of the shared state. -/
structure ChannelTable where
  channels : UInt32 → Option FullChannelEntry := fun _ => none
  currentChannel : Option UInt32 := none
  synced : Bool := false
  keyManager : Option KeyManager := none

inductive ChannelEffect where
  | custodianPinChanged (channelId : UInt32) (pin : CustodianPinState)
  | keyGenAndFetch (channelId : UInt32)
  | descriptionFetch (channelId : UInt32)
  | permissionsRefresh (channelId : UInt32)
  | stateChanged

def ChannelEffect.task : ChannelEffect → Option (List Op)
  | .keyGenAndFetch id => some [.keyGenAndFetch id]
  | .custodianPinChanged _ _ | .descriptionFetch _ | .permissionsRefresh _ | .stateChanged => none

def applyChannelStateFields (ch : FullChannelEntry) (proto : ChannelState) :
    FullChannelEntry × Bool :=
  let newMode := proto.pchatProtocol.map PchatProtocol.fromProto
  ({ ch with
      parentId := proto.parent.or ch.parentId
      name := proto.name.getD ch.name
      description := proto.description.getD ch.description
      descriptionHash := proto.descriptionHash.or ch.descriptionHash
      temporary := proto.temporary.getD ch.temporary
      position := proto.position.getD ch.position
      maxUsers := proto.maxUsers.getD ch.maxUsers
      pchatProtocol := newMode.or ch.pchatProtocol
      pchatMaxHistory := proto.pchatMaxHistory.or ch.pchatMaxHistory
      pchatRetentionDays := proto.pchatRetentionDays.or ch.pchatRetentionDays
      -- the second condition holds of an absent list as soon as there is a stored one
      pchatKeyCustodians :=
        if ¬proto.pchatKeyCustodians.isEmpty ∨ ch.pchatKeyCustodians ≠ proto.pchatKeyCustodians
        then proto.pchatKeyCustodians else ch.pchatKeyCustodians },
    newMode.isSome && ch.pchatProtocol ≠ newMode)

@[simp] theorem applyChannelStateFields_pchatKeyCustodians (ch : FullChannelEntry)
    (proto : ChannelState) :
    (applyChannelStateFields ch proto).1.pchatKeyCustodians = proto.pchatKeyCustodians := by
  simp only [applyChannelStateFields]
  split
  next => rfl
  next hsame =>
    obtain ⟨-, hsame⟩ := not_or.mp hsame
    exact not_not.mp hsame

namespace ChannelTable

def entry (s : ChannelTable) (id : UInt32) : FullChannelEntry :=
  (s.channels id).getD { id }

def custodianPin (s : ChannelTable) (id : UInt32) : Option CustodianPinState :=
  s.keyManager.bind fun km => km.pinnedCustodians id

def handle (s : ChannelTable) (proto : ChannelState) : ChannelTable × List ChannelEffect :=
  match proto.channelId with
  | none => (s, [])
  | some id =>
      let (ch, modeChanged) := applyChannelStateFields (s.entry id) proto
      let newCustodians := ch.pchatKeyCustodians
      let needsDesc := ch.description.isEmpty && ch.descriptionHash.isSome && s.synced
      let custEvent := s.keyManager.bind fun km =>
        match km.updateCustodianPin id newCustodians with
        | (km, changed) => if changed then km.pinnedCustodians id else none
      ({ s with
          channels := Function.update s.channels id (some ch)
          keyManager := s.keyManager.map fun km => (km.updateCustodianPin id newCustodians).1 },
        custEvent.toList.map (.custodianPinChanged id) ++
          (if modeChanged && s.currentChannel = some id then [.keyGenAndFetch id] else []) ++
          (if needsDesc then [.descriptionFetch id] else []) ++
          (if s.synced then [.permissionsRefresh id, .stateChanged] else []))

def step (s : ChannelTable) (proto : ChannelState) : ChannelTable := (s.handle proto).1

variable {s : ChannelTable} {proto : ChannelState} {id : UInt32}

theorem step_of_none (h : proto.channelId = none) : s.step proto = s := by
  simp only [step, handle, h]

theorem step_of_some (h : proto.channelId = some id) :
    s.step proto =
      { s with
        channels := Function.update s.channels id
          (some (applyChannelStateFields (s.entry id) proto).1)
        keyManager := s.keyManager.map fun km =>
          (km.updateCustodianPin id proto.pchatKeyCustodians).1 } := by
  simp only [step, handle, h, applyChannelStateFields_pchatKeyCustodians]

theorem custodianPin_step (h : proto.channelId = some id) (d : UInt32) :
    (s.step proto).custodianPin d =
      if d = id then
        s.keyManager.bind fun km =>
          PinHistory.pinAfter (km.pinnedCustodians id) (.announced proto.pchatKeyCustodians)
      else s.custodianPin d := by
  rw [step_of_some h]
  simp only [custodianPin]
  cases s.keyManager with
  | none => split <;> rfl
  | some km =>
      have hpins := CustodianState.pinnedCustodians_keyManagerAfter km id
        (.announced proto.pchatKeyCustodians)
      simp only [CustodianState.keyManagerAfter] at hpins
      simp only [Option.map_some, Option.bind_some, hpins, Function.update_apply]

/-! ## The entries of key sharing -/

structure Represents (cl : Participant) (s : ChannelTable) : Prop where
  channels : ∀ id, cl.shared.channels id =
    (s.channels id).map FullChannelEntry.toChannelEntry
  currentChannel : cl.shared.currentChannel = s.currentChannel
  keyManager : cl.shared.pchat.map PchatState.keyManager = s.keyManager

theorem Represents.mode {cl : Participant} (hcl : Represents cl s) (id : UInt32) :
    cl.mode id = (s.entry id).pchatProtocol := by
  simp only [Participant.mode, hcl.channels, entry]
  cases s.channels id <;> rfl

theorem filterMap_task_handle (h : proto.channelId = some id) :
    (s.handle proto).2.filterMap ChannelEffect.task =
      if (applyChannelStateFields (s.entry id) proto).2 ∧ s.currentChannel = some id then
        [[.keyGenAndFetch id]]
      else [] := by
  simp [handle, h, Function.comp_def, apply_ite (List.filterMap ChannelEffect.task),
    ChannelEffect.task]

/-- The client does with a message what the table does, and starts the same tasks of key sharing. -/
theorem represents_handleChannelState {cl : Participant} (hcl : Represents cl s)
    (h : proto.channelId = some id) :
    let cl' := cl.handleChannelState id (proto.pchatProtocol.map PchatProtocol.fromProto)
      proto.pchatKeyCustodians
    Represents cl' (s.step proto) ∧
      cl'.tasks = cl.tasks ++ (s.handle proto).2.filterMap ChannelEffect.task := by
  rw [filterMap_task_handle h, step_of_some h, ← hcl.keyManager, ← hcl.currentChannel]
  have hentry : (applyChannelStateFields (s.entry id) proto).1.toChannelEntry =
      { pchatProtocol :=
          (proto.pchatProtocol.map PchatProtocol.fromProto).or (s.entry id).pchatProtocol
        pchatKeyCustodians := proto.pchatKeyCustodians } := by
    rw [← applyChannelStateFields_pchatKeyCustodians (s.entry id) proto]
    rfl
  have hshared : (cl.handleChannelState id (proto.pchatProtocol.map PchatProtocol.fromProto)
      proto.pchatKeyCustodians).shared =
      { cl.shared with
        channels := Function.update cl.shared.channels id
          (some (applyChannelStateFields (s.entry id) proto).1.toChannelEntry)
        pchat := cl.shared.pchat.map fun pchat =>
          { pchat with
            keyManager :=
              (pchat.keyManager.updateCustodianPin id proto.pchatKeyCustodians).1 } } := by
    rw [hentry, ← hcl.mode]
    simp only [Participant.handleChannelState]
    split <;> rfl
  refine ⟨⟨?_, ?_, ?_⟩, ?_⟩
  · intro d
    rw [hshared]
    simp only [Function.update_apply]
    split
    · rfl
    · exact hcl.channels d
  · rw [hshared]
  · rw [hshared]
    simp only [Option.map_map, Function.comp_def]
  · have hchanged : (applyChannelStateFields (s.entry id) proto).2 =
        ((proto.pchatProtocol.map PchatProtocol.fromProto).isSome &&
          decide (cl.mode id ≠ proto.pchatProtocol.map PchatProtocol.fromProto)) := by
      rw [hcl.mode]
      rfl
    rw [hchanged]
    exact cl.handleChannelState_tasks id _ _

/-! ## What a message changes -/

/-- The fields that a message does not carry are the same in two entries, and so is what no
message carries. -/
structure KeepsUncarried (proto : ChannelState) (ch ch' : FullChannelEntry) : Prop where
  parentId : proto.parent = none → ch'.parentId = ch.parentId
  name : proto.name = none → ch'.name = ch.name
  description : proto.description = none → ch'.description = ch.description
  descriptionHash : proto.descriptionHash = none → ch'.descriptionHash = ch.descriptionHash
  temporary : proto.temporary = none → ch'.temporary = ch.temporary
  position : proto.position = none → ch'.position = ch.position
  maxUsers : proto.maxUsers = none → ch'.maxUsers = ch.maxUsers
  pchatProtocol : proto.pchatProtocol = none → ch'.pchatProtocol = ch.pchatProtocol
  pchatMaxHistory : proto.pchatMaxHistory = none → ch'.pchatMaxHistory = ch.pchatMaxHistory
  pchatRetentionDays : proto.pchatRetentionDays = none →
    ch'.pchatRetentionDays = ch.pchatRetentionDays
  pchatKeyCustodians : proto.pchatKeyCustodians = [] →
    ch'.pchatKeyCustodians = ch.pchatKeyCustodians
  id : ch'.id = ch.id
  userCount : ch'.userCount = ch.userCount
  permissions : ch'.permissions = ch.permissions

theorem keepsUncarried_applyChannelStateFields_iff {ch : FullChannelEntry} :
    KeepsUncarried proto ch (applyChannelStateFields ch proto).1 ↔
      (proto.pchatKeyCustodians = [] → ch.pchatKeyCustodians = []) := by
  constructor
  · intro h habsent
    rw [← h.pchatKeyCustodians habsent, applyChannelStateFields_pchatKeyCustodians, habsent]
  · intro h
    constructor
    case pchatKeyCustodians =>
      intro habsent
      rw [applyChannelStateFields_pchatKeyCustodians, habsent, h habsent]
    all_goals simp +contextual [applyChannelStateFields]

/-- A message changes only the entry of its channel, and there only the fields that it
carries; and it changes only the pin of its channel, if it carries custodians. -/
structure ChangesOnlyCarried (s : ChannelTable) (proto : ChannelState) : Prop where
  others : ∀ id, proto.channelId ≠ some id → (s.step proto).channels id = s.channels id
  entries : ∀ id ch, proto.channelId = some id → s.channels id = some ch →
    ∃ ch', (s.step proto).channels id = some ch' ∧ KeepsUncarried proto ch ch'
  pins : ∀ id, (proto.channelId = some id → proto.pchatKeyCustodians = []) →
    (s.step proto).custodianPin id = s.custodianPin id

/-- A message without custodians meets none: the stored list is empty, and the pinned list
is empty or waits to be replaced by the empty one already. -/
def MeetsNoCustodians (s : ChannelTable) (proto : ChannelState) : Prop :=
  proto.pchatKeyCustodians = [] → ∀ id, proto.channelId = some id →
    (∀ ch, s.channels id = some ch → ch.pchatKeyCustodians = []) ∧
      ∀ km, s.keyManager = some km →
        ∃ pin, km.pinnedCustodians id = some pin ∧
          (pin.pinned = [] ∨ pin.pendingUpdate = some [])

/-- A message changes only what it carries exactly if it does not clear custodians. -/
theorem changesOnlyCarried_iff :
    s.ChangesOnlyCarried proto ↔ s.MeetsNoCustodians proto := by
  constructor
  · intro h habsent id hid
    refine ⟨fun ch hch => ?_, fun km hkm => ?_⟩
    · obtain ⟨ch', hch', hkeeps⟩ := h.entries id ch hid hch
      simp only [step_of_some hid, Function.update_self, Option.some.injEq, entry, hch,
        Option.getD_some] at hch'
      rw [← hch', keepsUncarried_applyChannelStateFields_iff] at hkeeps
      exact hkeeps habsent
    · have hpin := h.pins id fun _ => habsent
      rw [custodianPin_step hid, if_pos rfl, habsent] at hpin
      simp only [custodianPin, hkm, Option.bind_some] at hpin
      exact PinHistory.pinAfter_announced_eq_iff.mp hpin
  · intro h
    refine ⟨fun id hother => ?_, fun id ch hid hch => ?_, fun id habsent => ?_⟩
    · cases hid : proto.channelId with
      | none => rw [step_of_none hid]
      | some d =>
          rw [step_of_some hid]
          refine Function.update_of_ne ?_ _ _
          rintro rfl
          exact hother hid
    · refine ⟨_, by rw [step_of_some hid]; exact Function.update_self _ _ _, ?_⟩
      rw [entry, hch, Option.getD_some, keepsUncarried_applyChannelStateFields_iff]
      exact fun hempty => (h hempty id hid).1 ch hch
    · cases hid : proto.channelId with
      | none => rw [step_of_none hid]
      | some d =>
          rw [custodianPin_step hid]
          split
          next hchannel =>
            subst hchannel
            rw [habsent hid, custodianPin]
            cases hkm : s.keyManager with
            | none => rfl
            | some km =>
                exact PinHistory.pinAfter_announced_eq_iff.mpr ((h (habsent hid) id hid).2 km hkm)
          next => rfl

/-- Along every history of messages, each one changes only what it carries exactly if none
clears custodians. -/
theorem changesOnlyCarried_run_iff (s : ChannelTable) (protos : List ChannelState) :
    Along step ChangesOnlyCarried s protos ↔ Along step MeetsNoCustodians s protos := by
  have hruns : Along step (fun _ _ => True) s protos := along_of_forall (fun _ _ => trivial) _ _
  refine along_iff_along (fun s proto (_ : True) _ => changesOnlyCarried_iff) ?_ trivial hruns
  exact fun _ _ _ _ _ => trivial

section Example

/-- A channel with a custodian is renamed; the custodian is gone. -/
theorem renaming_clears_custodians :
    ¬∀ (s : ChannelTable) (protos : List ChannelState),
      Along step ChangesOnlyCarried s protos := by
  intro h
  obtain ⟨-, hrename, -⟩ := h {}
    [{ channelId := some 7, pchatKeyCustodians := ["a"] },
      { channelId := some 7, name := some "b" }]
  obtain ⟨ch', hch', hkeeps⟩ := hrename.entries 7 _ rfl rfl
  cases hch'
  exact absurd (hkeeps.pchatKeyCustodians rfl) (by decide)

end Example

end ChannelTable

end FancyMumble.Client
