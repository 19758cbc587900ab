import FancyMumble.Lib.Decimal
import FancyMumble.Lib.Grouping
import Mathlib.Data.BitVec

/-!
# Access control lists

The access control list of a channel on the wire and in the interface, the conversions
between the two, and the edits that the pages of the interface make.
-/

namespace FancyMumble.Interface.Acl

open Lib.Grouping

/-! ## On the wire -/

structure KeyValue where
  key : String
  value : Option String

structure ChanGroup where
  name : String
  inherited : Option Bool
  inherit : Option Bool
  inheritable : Option Bool
  add : List UInt32
  remove : List UInt32
  inheritedMembers : List UInt32
  color : Option String
  icon : Option (List UInt8)
  stylePreset : Option String
  metadata : List KeyValue

structure ChanAcl where
  applyHere : Option Bool
  applySubs : Option Bool
  inherited : Option Bool
  userId : Option UInt32
  group : Option String
  grant : Option UInt32
  deny : Option UInt32

structure Message where
  channelId : UInt32
  inheritAcls : Option Bool
  groups : List ChanGroup
  acls : List ChanAcl
  query : Option Bool

/-! ## In the interface -/

abbrev Metadata := AList fun _ : String => String

/-- `AclGroup`, `AclGroupPayload` and `AclGroupInput`. -/
structure AclGroup where
  name : String
  inherited : Bool
  inherit : Bool
  inheritable : Bool
  add : List UInt32
  remove : List UInt32
  inheritedMembers : List UInt32
  color : Option String := none
  icon : Option (List UInt8) := none
  stylePreset : Option String := none
  metadata : Metadata := ∅

/-- `AclEntry`, `AclEntryPayload` and `AclEntryInput`. The permissions are numbers, which the
bit operators of the interface take for 32 bits with a sign. -/
structure AclEntry where
  applyHere : Bool
  applySubs : Bool
  inherited : Bool
  userId : Option UInt32
  group : Option String
  grant : ℤ
  deny : ℤ

structure AclData where
  channelId : UInt32
  inheritAcls : Bool
  groups : List AclGroup
  acls : List AclEntry

/-! ## Conversions -/

def collectMetadata (metadata : List KeyValue) : Metadata :=
  insertAll ∅ (metadata.map fun kv => ⟨kv.key, kv.value.getD ""⟩)

def groupPayload (g : ChanGroup) : AclGroup where
  name := g.name
  inherited := g.inherited.getD true
  inherit := g.inherit.getD true
  inheritable := g.inheritable.getD true
  add := g.add
  remove := g.remove
  inheritedMembers := g.inheritedMembers
  color := g.color
  icon := g.icon
  stylePreset := g.stylePreset
  metadata := collectMetadata g.metadata

def entryPayload (a : ChanAcl) : AclEntry where
  applyHere := a.applyHere.getD true
  applySubs := a.applySubs.getD true
  inherited := a.inherited.getD true
  userId := a.userId
  group := a.group
  grant := (a.grant.getD 0).toNat
  deny := (a.deny.getD 0).toNat

def Message.handle (self : Message) : AclData where
  channelId := self.channelId
  inheritAcls := self.inheritAcls.getD true
  groups := self.groups.map groupPayload
  acls := self.acls.map entryPayload

def toU32 (n : ℤ) : Option UInt32 :=
  if 0 ≤ n ∧ n < 2 ^ 32 then some (UInt32.ofNat n.toNat) else none

def chanGroup (order : HashOrder) (g : AclGroup) : ChanGroup where
  name := g.name
  inherited := some g.inherited
  inherit := some g.inherit
  inheritable := some g.inheritable
  add := g.add
  remove := g.remove
  inheritedMembers := g.inheritedMembers
  color := g.color
  icon := g.icon
  stylePreset := g.stylePreset
  metadata := (order.visit g.metadata.entries).map fun entry => ⟨entry.1, some entry.2⟩

def chanAcl (a : AclEntry) : Option ChanAcl :=
  match toU32 a.grant, toU32 a.deny with
  | some grant, some deny =>
      some {
        applyHere := some a.applyHere
        applySubs := some a.applySubs
        inherited := some a.inherited
        userId := a.userId
        group := a.group
        grant := some grant
        deny := some deny }
  | _, _ => none

def updateAcl (order : HashOrder) (acl : AclData) : Option Message :=
  match acl.acls.mapM chanAcl with
  | some acls =>
      some {
        channelId := acl.channelId
        inheritAcls := some acl.inheritAcls
        groups := acl.groups.map (chanGroup order)
        acls := acls
        query := some false }
  | none => none

def requestAcl (channelId : UInt32) : Message where
  channelId := channelId
  inheritAcls := none
  groups := []
  acls := []
  query := some true

/-! ## Edits -/

structure GroupPatch where
  name : Option String := none
  inherited : Option Bool := none
  inherit : Option Bool := none
  inheritable : Option Bool := none
  add : Option (List UInt32) := none
  remove : Option (List UInt32) := none
  inheritedMembers : Option (List UInt32) := none
  color : Option (Option String) := none
  icon : Option (Option (List UInt8)) := none
  stylePreset : Option (Option String) := none
  metadata : Option Metadata := none

structure EntryPatch where
  applyHere : Option Bool := none
  applySubs : Option Bool := none
  inherited : Option Bool := none
  userId : Option (Option UInt32) := none
  group : Option (Option String) := none
  grant : Option ℤ := none
  deny : Option ℤ := none

def AclGroup.spread (g : AclGroup) (patch : GroupPatch) : AclGroup where
  name := patch.name.getD g.name
  inherited := patch.inherited.getD g.inherited
  inherit := patch.inherit.getD g.inherit
  inheritable := patch.inheritable.getD g.inheritable
  add := patch.add.getD g.add
  remove := patch.remove.getD g.remove
  inheritedMembers := patch.inheritedMembers.getD g.inheritedMembers
  color := patch.color.getD g.color
  icon := patch.icon.getD g.icon
  stylePreset := patch.stylePreset.getD g.stylePreset
  metadata := patch.metadata.getD g.metadata

def AclEntry.spread (a : AclEntry) (patch : EntryPatch) : AclEntry where
  applyHere := patch.applyHere.getD a.applyHere
  applySubs := patch.applySubs.getD a.applySubs
  inherited := patch.inherited.getD a.inherited
  userId := patch.userId.getD a.userId
  group := patch.group.getD a.group
  grant := patch.grant.getD a.grant
  deny := patch.deny.getD a.deny

def mapAt {α : Type} (idx : ℕ) (f : α → α) (xs : List α) : List α :=
  xs.mapIdx fun i x => if i = idx then f x else x

def filterAt {α : Type} (idx : ℕ) (xs : List α) : List α :=
  (xs.zipIdx.filter fun x => x.2 ≠ idx).map Prod.fst

def toInt32 (n : ℤ) : BitVec 32 := BitVec.ofInt 32 n

inductive PermField where
  | grant
  | deny

/-- What a page of the interface does to the list that it holds. The edits of `ChannelAclTab`
go by position, those of the role pages by the name of the role. -/
inductive Edit where
  | toggleInherit
  | patchGroup (idx : ℕ) (patch : GroupPatch)
  | addGroup
  | removeGroup (idx : ℕ)
  | patchAcl (idx : ℕ) (patch : EntryPatch)
  | addAcl
  | removeAcl (idx : ℕ)
  | togglePermBit (aclIdx : ℕ) (field : PermField) (bit : BitVec 32)
  | patchRole (roleName : String) (patch : GroupPatch)
  | togglePerm (roleName : String) (bit : BitVec 32) (allow : Bool)
  | createRole
  | deleteRole (roleName : String)

namespace AclData

def patchGroup (self : AclData) (idx : ℕ) (patch : GroupPatch) : AclData :=
  { self with groups := mapAt idx (·.spread patch) self.groups }

def addGroup (self : AclData) : AclData :=
  { self with
    groups := self.groups ++ [{
      name := "new_group"
      inherited := false
      inherit := true
      inheritable := true
      add := []
      remove := []
      inheritedMembers := [] }] }

def removeGroup (self : AclData) (idx : ℕ) : AclData :=
  { self with groups := filterAt idx self.groups }

def patchAcl (self : AclData) (idx : ℕ) (patch : EntryPatch) : AclData :=
  { self with acls := mapAt idx (·.spread patch) self.acls }

def addAcl (self : AclData) : AclData :=
  { self with
    acls := self.acls ++ [{
      applyHere := true
      applySubs := true
      inherited := false
      userId := none
      group := some "all"
      grant := 0
      deny := 0 }] }

def removeAcl (self : AclData) (idx : ℕ) : AclData :=
  { self with acls := filterAt idx self.acls }

def togglePermBit (self : AclData) (aclIdx : ℕ) (field : PermField) (bit : BitVec 32) :
    AclData :=
  match self.acls[aclIdx]?, field with
  | some entry, .grant =>
      self.patchAcl aclIdx { grant := some (toInt32 entry.grant ^^^ bit).toInt }
  | some entry, .deny =>
      self.patchAcl aclIdx { deny := some (toInt32 entry.deny ^^^ bit).toInt }
  | none, _ => self

def roleIdx (self : AclData) (roleName : String) : Option ℕ :=
  self.groups.findIdx? (·.name == roleName)

def patchRole (self : AclData) (roleName : String) (patch : GroupPatch) : AclData :=
  match self.roleIdx roleName with
  | some idx => self.patchGroup idx patch
  | none => self

def isRoleAcl (roleName : String) (a : AclEntry) : Bool :=
  a.group == some roleName && a.userId == none && a.applyHere && !a.inherited

def findRoleAclIndex (self : AclData) (roleName : String) : Option ℕ :=
  self.acls.findIdx? (isRoleAcl roleName)

def ensureRoleAcl (self : AclData) (roleName : String) : AclData × ℕ :=
  match self.findRoleAclIndex roleName with
  | some existing => (self, existing)
  | none =>
      ({ self with
          acls := self.acls ++ [{
            applyHere := true
            applySubs := true
            inherited := false
            userId := none
            group := some roleName
            grant := 0
            deny := 0 }] },
        self.acls.length)

def withPerm (target : AclEntry) (bit : BitVec 32) (allow : Bool) : AclEntry :=
  if allow then
    { target with
      grant := (toInt32 target.grant ||| bit).toInt
      deny := (toInt32 target.deny &&& ~~~bit).toInt }
  else
    { target with
      grant := (toInt32 target.grant &&& ~~~bit).toInt
      deny := (toInt32 target.deny &&& ~~~bit).toInt }

def togglePerm (self : AclData) (roleName : String) (bit : BitVec 32) (allow : Bool) : AclData :=
  let ⟨nextAcl, targetIdx⟩ := self.ensureRoleAcl roleName
  match nextAcl.acls[targetIdx]? with
  | some target =>
      { nextAcl with acls := mapAt targetIdx (fun _ => withPerm target bit allow) nextAcl.acls }
  | none => nextAcl

end AclData

/-! ### New roles -/

def candidateName (suffix : ℕ) : String :=
  if suffix = 1 then "new_role" else "new_role_" ++ toString suffix

def nextName (existing : List String) : ℕ → ℕ → String
  | 0, suffix => candidateName suffix
  | rounds + 1, suffix =>
      if candidateName suffix ∈ existing then nextName existing rounds (suffix + 1)
      else candidateName suffix

def newRoleName (existing : List String) : String := nextName existing existing.length 1

theorem candidateName_inj {a b : ℕ} (h : candidateName a = candidateName b) : a = b := by
  have hlong : ∀ n : ℕ, "new_role" ≠ "new_role_" ++ toString n := by
    intro n heq
    have hlength := congrArg String.length heq
    rw [String.length_append] at hlength
    have hshort : "new_role".length = 8 := by decide
    have hprefixed : "new_role_".length = 9 := by decide
    omega
  unfold candidateName at h
  split at h
  next hone =>
    split at h
    next hone' => rw [hone, hone']
    next => exact absurd h (hlong b)
  next =>
    split at h
    next => exact absurd h.symm (hlong a)
    next => exact Decimal.toString_inj ((String.append_right_inj _).mp h)

theorem candidates_taken {existing : List String} {rounds suffix : ℕ}
    (h : nextName existing rounds suffix ∈ existing) :
    ∀ i ≤ rounds, candidateName (suffix + i) ∈ existing := by
  induction rounds generalizing suffix with
  | zero =>
      intro i hi
      obtain rfl := Nat.le_zero.mp hi
      exact h
  | succ rounds ih =>
      unfold nextName at h
      split at h
      next htaken =>
        intro i hi
        cases i with
        | zero => exact htaken
        | succ i =>
            have hrest := ih h i (Nat.le_of_succ_le_succ hi)
            rwa [Nat.add_assoc, Nat.add_comm 1] at hrest
      next hfree => exact absurd h hfree

theorem newRoleName_notMem (existing : List String) : newRoleName existing ∉ existing := by
  intro h
  have htaken := candidates_taken h
  have hnodup :
      ((List.range (existing.length + 1)).map fun i => candidateName (1 + i)).Nodup := by
    apply List.Nodup.map_on
    · intro i _ j _ heq
      exact Nat.add_left_cancel (candidateName_inj heq)
    · exact List.nodup_range
  have hsubset :
      ((List.range (existing.length + 1)).map fun i => candidateName (1 + i)) ⊆ existing := by
    intro name hname
    obtain ⟨i, hi, rfl⟩ := List.mem_map.mp hname
    exact htaken i (Nat.lt_succ_iff.mp (List.mem_range.mp hi))
  have hlength := (List.subperm_of_subset hnodup hsubset).length_le
  rw [List.length_map, List.length_range] at hlength
  omega

namespace AclData

def createRole (self : AclData) : AclData :=
  { self with
    groups := self.groups ++ [{
      name := newRoleName (self.groups.map AclGroup.name)
      inherited := false
      inherit := true
      inheritable := true
      add := []
      remove := []
      inheritedMembers := [] }] }

def deleteRole (self : AclData) (roleName : String) : AclData :=
  match self.roleIdx roleName with
  | some idx => self.removeGroup idx
  | none => self

def finds (self : AclData) : Edit → Bool
  | .togglePermBit aclIdx _ _ => aclIdx < self.acls.length
  | .patchRole roleName _ => (self.roleIdx roleName).isSome
  | .deleteRole roleName => (self.roleIdx roleName).isSome
  | _ => true

def edited (self : AclData) : Edit → AclData
  | .toggleInherit => { self with inheritAcls := !self.inheritAcls }
  | .patchGroup idx patch => self.patchGroup idx patch
  | .addGroup => self.addGroup
  | .removeGroup idx => self.removeGroup idx
  | .patchAcl idx patch => self.patchAcl idx patch
  | .addAcl => self.addAcl
  | .removeAcl idx => self.removeAcl idx
  | .togglePermBit aclIdx field bit => self.togglePermBit aclIdx field bit
  | .patchRole roleName patch => self.patchRole roleName patch
  | .togglePerm roleName bit allow => self.togglePerm roleName bit allow
  | .createRole => self.createRole
  | .deleteRole roleName => self.deleteRole roleName

theorem edited_of_not_finds {self : AclData} {edit : Edit} (h : self.finds edit = false) :
    self.edited edit = self := by
  have hnone : ∀ roleName, (self.roleIdx roleName).isSome = false →
      self.roleIdx roleName = none := by
    intro roleName hrole
    cases hidx : self.roleIdx roleName with
    | none => rfl
    | some idx =>
        rw [hidx] at hrole
        exact nomatch hrole
  cases edit with
  | togglePermBit aclIdx field bit =>
      have hentry : self.acls[aclIdx]? = none :=
        List.getElem?_eq_none (Nat.le_of_not_lt (of_decide_eq_false h))
      show self.togglePermBit aclIdx field bit = self
      unfold togglePermBit
      rw [hentry]
  | patchRole roleName patch =>
      show self.patchRole roleName patch = self
      unfold patchRole
      rw [hnone roleName h]
  | deleteRole roleName =>
      show self.deleteRole roleName = self
      unfold deleteRole
      rw [hnone roleName h]
  | _ => exact nomatch h

end AclData

end FancyMumble.Interface.Acl
