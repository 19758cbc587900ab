import FancyMumble.Interface.Acl
import Mathlib.Data.List.GetD

/-!
# What access control lists say

A list on the wire and a list in the interface have the same meaning, with defaults filled in
and permissions as sets of bits. The conversions keep it, and each edit changes one place of
it.
-/

namespace FancyMumble.Interface.Acl

open Lib.Grouping

/-! ## Meanings -/

structure Role where
  name : String
  inherited : Bool
  inherit : Bool
  inheritable : Bool
  add : List UInt32
  remove : List UInt32
  inheritedMembers : List UInt32
  color : Option String
  icon : Option (List UInt8)
  stylePreset : Option String
  metadata : String → Option String

structure Rule where
  applyHere : Bool
  applySubs : Bool
  inherited : Bool
  userId : Option UInt32
  group : Option String
  grant : BitVec 32
  deny : BitVec 32

structure Permissions where
  channel : UInt32
  inheritAcls : Bool
  groups : List Role
  rules : List Rule

def ChanGroup.role (g : ChanGroup) : Role where
  name := g.name
  inherited := g.inherited.getD true
  inherit := g.inherit.getD true
  inheritable := g.inheritable.getD true
  add := g.add
  remove := g.remove
  inheritedMembers := g.inheritedMembers
  color := g.color
  icon := g.icon
  stylePreset := g.stylePreset
  metadata := (collectMetadata g.metadata).lookup

def ChanAcl.rule (a : ChanAcl) : Rule where
  applyHere := a.applyHere.getD true
  applySubs := a.applySubs.getD true
  inherited := a.inherited.getD true
  userId := a.userId
  group := a.group
  grant := (a.grant.getD 0).toBitVec
  deny := (a.deny.getD 0).toBitVec

def Message.permissions (self : Message) : Permissions where
  channel := self.channelId
  inheritAcls := self.inheritAcls.getD true
  groups := self.groups.map ChanGroup.role
  rules := self.acls.map ChanAcl.rule

def AclGroup.role (g : AclGroup) : Role where
  name := g.name
  inherited := g.inherited
  inherit := g.inherit
  inheritable := g.inheritable
  add := g.add
  remove := g.remove
  inheritedMembers := g.inheritedMembers
  color := g.color
  icon := g.icon
  stylePreset := g.stylePreset
  metadata := g.metadata.lookup

def AclEntry.rule (a : AclEntry) : Rule where
  applyHere := a.applyHere
  applySubs := a.applySubs
  inherited := a.inherited
  userId := a.userId
  group := a.group
  grant := toInt32 a.grant
  deny := toInt32 a.deny

def AclData.permissions (self : AclData) : Permissions where
  channel := self.channelId
  inheritAcls := self.inheritAcls
  groups := self.groups.map AclGroup.role
  rules := self.acls.map AclEntry.rule

/-! ## Conversions -/

theorem toInt32_toNat (n : UInt32) : toInt32 n.toNat = n.toBitVec := by
  rw [toInt32, BitVec.ofInt_natCast]
  exact (BitVec.ofNat_toNat 32 n.toBitVec).trans (BitVec.setWidth_eq _)

theorem rule_entryPayload (a : ChanAcl) : (entryPayload a).rule = a.rule := by
  unfold AclEntry.rule ChanAcl.rule entryPayload
  rw [toInt32_toNat, toInt32_toNat]

theorem permissions_handle (self : Message) : self.handle.permissions = self.permissions := by
  unfold AclData.permissions Message.permissions Message.handle
  dsimp only
  rw [List.map_map, List.map_map]
  congr 1
  · exact List.map_congr_left fun a _ => rule_entryPayload a

theorem lookup_collectMetadata (order : HashOrder) (metadata : Metadata) (key : String) :
    (collectMetadata ((order.visit metadata.entries).map fun entry =>
      ⟨entry.1, some entry.2⟩)).lookup key = metadata.lookup key := by
  have hpairs : ((order.visit metadata.entries).map fun entry =>
      (⟨entry.1, some entry.2⟩ : KeyValue)).map
        (fun kv => (⟨kv.key, kv.value.getD ""⟩ : (_ : String) × String)) =
      order.visit metadata.entries := by
    rw [List.map_map]
    exact List.map_id _
  unfold collectMetadata
  rw [hpairs, lookup_insertAll_visit]
  simp

theorem role_chanGroup (order : HashOrder) (g : AclGroup) : (chanGroup order g).role = g.role := by
  have hmetadata : (collectMetadata (chanGroup order g).metadata).lookup = g.metadata.lookup :=
    funext fun key => lookup_collectMetadata order g.metadata key
  unfold ChanGroup.role AclGroup.role
  rw [hmetadata]
  rfl

theorem toBitVec_of_toU32 {n : ℤ} {read : UInt32} (h : toU32 n = some read) :
    read.toBitVec = toInt32 n := by
  unfold toU32 at h
  split at h
  next hrange =>
    cases h
    have hnat : ((n.toNat : ℕ) : ℤ) = n := Int.toNat_of_nonneg hrange.1
    rw [toInt32, ← hnat, BitVec.ofInt_natCast]
    rfl
  next => exact nomatch h

theorem rule_of_chanAcl {a : AclEntry} {sent : ChanAcl} (h : chanAcl a = some sent) :
    sent.rule = a.rule := by
  unfold chanAcl at h
  split at h
  next grant deny hgrant hdeny =>
    cases h
    unfold ChanAcl.rule AclEntry.rule
    dsimp only [Option.getD_some]
    rw [toBitVec_of_toU32 hgrant, toBitVec_of_toU32 hdeny]
  next => exact nomatch h

theorem rules_of_mapM {acls : List AclEntry} {sent : List ChanAcl}
    (h : acls.mapM chanAcl = some sent) : sent.map ChanAcl.rule = acls.map AclEntry.rule := by
  induction acls generalizing sent with
  | nil =>
      cases h
      rfl
  | cons a acls ih =>
      rw [List.mapM_cons] at h
      obtain ⟨first, hfirst, h⟩ := Option.bind_eq_some_iff.mp h
      obtain ⟨rest, hrest, h⟩ := Option.bind_eq_some_iff.mp h
      cases h
      rw [List.map_cons, List.map_cons, rule_of_chanAcl hfirst, ih hrest]

theorem permissions_of_updateAcl {order : HashOrder} {acl : AclData} {sent : Message}
    (h : updateAcl order acl = some sent) : sent.permissions = acl.permissions := by
  unfold updateAcl at h
  split at h
  next acls hacls =>
    cases h
    unfold Message.permissions AclData.permissions
    dsimp only [Option.getD_some]
    rw [rules_of_mapM hacls, List.map_map]
    congr 1
    exact List.map_congr_left fun g _ => role_chanGroup order g
  next => exact nomatch h

/-! ## Edits -/

def Role.patch (r : Role) (patch : GroupPatch) : Role where
  name := patch.name.getD r.name
  inherited := patch.inherited.getD r.inherited
  inherit := patch.inherit.getD r.inherit
  inheritable := patch.inheritable.getD r.inheritable
  add := patch.add.getD r.add
  remove := patch.remove.getD r.remove
  inheritedMembers := patch.inheritedMembers.getD r.inheritedMembers
  color := patch.color.getD r.color
  icon := patch.icon.getD r.icon
  stylePreset := patch.stylePreset.getD r.stylePreset
  metadata := (patch.metadata.map fun metadata key => metadata.lookup key).getD r.metadata

def Rule.patch (r : Rule) (patch : EntryPatch) : Rule where
  applyHere := patch.applyHere.getD r.applyHere
  applySubs := patch.applySubs.getD r.applySubs
  inherited := patch.inherited.getD r.inherited
  userId := patch.userId.getD r.userId
  group := patch.group.getD r.group
  grant := (patch.grant.map toInt32).getD r.grant
  deny := (patch.deny.map toInt32).getD r.deny

def newRole (name : String) : Role where
  name := name
  inherited := false
  inherit := true
  inheritable := true
  add := []
  remove := []
  inheritedMembers := []
  color := none
  icon := none
  stylePreset := none
  metadata _ := none

def newRule (group : String) : Rule where
  applyHere := true
  applySubs := true
  inherited := false
  userId := none
  group := some group
  grant := 0
  deny := 0

def Rule.toggle (r : Rule) (field : PermField) (bit : BitVec 32) : Rule :=
  match field with
  | .grant => { r with grant := r.grant ^^^ bit }
  | .deny => { r with deny := r.deny ^^^ bit }

def Rule.withPerm (r : Rule) (bit : BitVec 32) (allow : Bool) : Rule :=
  if allow then { r with grant := r.grant ||| bit, deny := r.deny &&& ~~~bit }
  else { r with grant := r.grant &&& ~~~bit, deny := r.deny &&& ~~~bit }

def Rule.isFor (roleName : String) (r : Rule) : Bool :=
  r.group == some roleName && r.userId == none && r.applyHere && !r.inherited

def updateFirst {α : Type} (p : α → Bool) (f : α → α) (xs : List α) : List α :=
  match xs.findIdx? p with
  | some idx => xs.modify idx f
  | none => xs

def Edit.apply (p : Permissions) : Edit → Permissions
  | .toggleInherit => { p with inheritAcls := !p.inheritAcls }
  | .patchGroup idx patch => { p with groups := p.groups.modify idx (·.patch patch) }
  | .addGroup => { p with groups := p.groups ++ [newRole "new_group"] }
  | .removeGroup idx => { p with groups := p.groups.eraseIdx idx }
  | .patchAcl idx patch => { p with rules := p.rules.modify idx (·.patch patch) }
  | .addAcl => { p with rules := p.rules ++ [newRule "all"] }
  | .removeAcl idx => { p with rules := p.rules.eraseIdx idx }
  | .togglePermBit aclIdx field bit =>
      { p with rules := p.rules.modify aclIdx (·.toggle field bit) }
  | .patchRole roleName patch =>
      { p with groups := updateFirst (·.name == roleName) (·.patch patch) p.groups }
  | .togglePerm roleName bit allow =>
      { p with
        rules :=
          if p.rules.any (Rule.isFor roleName) then
            updateFirst (Rule.isFor roleName) (·.withPerm bit allow) p.rules
          else p.rules ++ [(newRule roleName).withPerm bit allow] }
  | .createRole =>
      { p with groups := p.groups ++ [newRole (newRoleName (p.groups.map Role.name))] }
  | .deleteRole roleName => { p with groups := p.groups.eraseP (·.name == roleName) }

/-! ### Places in a list -/

section Places

variable {α β : Type} {idx : ℕ} {xs : List α}

theorem mapAt_eq (f : α → α) : mapAt idx f xs = xs.modify idx f := by
  apply List.ext_getElem?
  intro i
  rw [mapAt, List.getElem?_mapIdx, List.getElem?_modify]
  by_cases hi : i = idx
  · simp [hi]
  · have hi' : ¬idx = i := fun heq => hi heq.symm
    simp [hi, hi']

theorem filter_zipIdx (xs : List α) (idx start : ℕ) :
    ((xs.zipIdx start).filter fun x => x.2 ≠ start + idx).map Prod.fst = xs.eraseIdx idx := by
  induction xs generalizing start idx with
  | nil => rfl
  | cons x xs ih =>
      rw [List.zipIdx_cons]
      cases idx with
      | zero =>
          have hrest : (xs.zipIdx (start + 1)).filter (fun x => x.2 ≠ start + 0) =
              xs.zipIdx (start + 1) := by
            apply List.filter_eq_self.mpr
            intro y hy
            have hle := (List.mem_zipIdx hy).1
            exact decide_eq_true (by omega)
          rw [List.filter_cons_of_neg (by simp), hrest]
          exact List.zipIdx_map_fst _ _
      | succ idx =>
          have hstart : start + (idx + 1) = start + 1 + idx := by omega
          rw [List.filter_cons_of_pos (by simp), List.map_cons, hstart, ih]
          rfl

theorem filterAt_eq : filterAt idx xs = xs.eraseIdx idx := by
  have h := filter_zipIdx xs idx 0
  rwa [Nat.zero_add] at h

theorem map_modify (g : α → β) {f : α → α} (f' : β → β) (h : ∀ x, g (f x) = f' (g x)) :
    (xs.modify idx f).map g = (xs.map g).modify idx f' := by
  apply List.ext_getElem?
  intro i
  rw [List.getElem?_map, List.getElem?_modify, List.getElem?_modify, List.getElem?_map]
  cases xs[i]? with
  | none => rfl
  | some x =>
      by_cases hi : idx = i
      · simp [hi, h]
      · simp [hi]

theorem modify_congr {f : α → α} (f' : α → α) {x : α} (hx : xs[idx]? = some x) (h : f x = f' x) :
    xs.modify idx f = xs.modify idx f' := by
  apply List.ext_getElem?
  intro i
  rw [List.getElem?_modify, List.getElem?_modify]
  by_cases hi : idx = i
  · subst hi
    simp [hx, h]
  · simp [hi]

theorem modify_concat (xs : List α) (x : α) (f : α → α) :
    (xs ++ [x]).modify xs.length f = xs ++ [f x] := by
  induction xs with
  | nil => rfl
  | cons y xs ih => rw [List.cons_append, List.length_cons, List.modify_succ_cons, ih]; rfl

end Places

/-! ### What the edits do -/

theorem role_spread (g : AclGroup) (patch : GroupPatch) :
    (g.spread patch).role = g.role.patch patch := by
  unfold AclGroup.role Role.patch AclGroup.spread
  cases patch.metadata <;> rfl

theorem rule_spread (a : AclEntry) (patch : EntryPatch) :
    (a.spread patch).rule = a.rule.patch patch := by
  unfold AclEntry.rule Rule.patch AclEntry.spread
  cases patch.grant <;> cases patch.deny <;> rfl

theorem toInt32_toInt (bits : BitVec 32) : toInt32 bits.toInt = bits := BitVec.ofInt_toInt

theorem rule_withPerm (a : AclEntry) (bit : BitVec 32) (allow : Bool) :
    (AclData.withPerm a bit allow).rule = a.rule.withPerm bit allow := by
  cases allow with
  | true => simp only [AclData.withPerm, AclEntry.rule, Rule.withPerm, toInt32_toInt, if_true]
  | false =>
      simp only [AclData.withPerm, AclEntry.rule, Rule.withPerm, toInt32_toInt,
        Bool.false_eq_true, if_false]

namespace AclData

variable (self : AclData)

theorem permissions_patchGroup (idx : ℕ) (patch : GroupPatch) :
    (self.patchGroup idx patch).permissions =
      { self.permissions with
        groups := self.permissions.groups.modify idx (·.patch patch) } := by
  unfold patchGroup permissions
  dsimp only
  rw [mapAt_eq, map_modify AclGroup.role (·.patch patch) fun g => role_spread g patch]

theorem permissions_removeGroup (idx : ℕ) :
    (self.removeGroup idx).permissions =
      { self.permissions with groups := self.permissions.groups.eraseIdx idx } := by
  unfold removeGroup permissions
  dsimp only
  rw [filterAt_eq, List.eraseIdx_map]

theorem permissions_patchAcl (idx : ℕ) (patch : EntryPatch) :
    (self.patchAcl idx patch).permissions =
      { self.permissions with rules := self.permissions.rules.modify idx (·.patch patch) } := by
  unfold patchAcl permissions
  dsimp only
  rw [mapAt_eq, map_modify AclEntry.rule (·.patch patch) fun a => rule_spread a patch]

theorem permissions_togglePermBit (aclIdx : ℕ) (field : PermField) (bit : BitVec 32) :
    (self.togglePermBit aclIdx field bit).permissions =
      (Edit.togglePermBit aclIdx field bit).apply self.permissions := by
  have hrule : self.permissions.rules[aclIdx]? = self.acls[aclIdx]?.map AclEntry.rule :=
    List.getElem?_map
  unfold togglePermBit
  cases hentry : self.acls[aclIdx]? with
  | none =>
      have hout : self.permissions.rules.length ≤ aclIdx := by
        rw [hentry] at hrule
        exact List.getElem?_eq_none_iff.mp hrule
      unfold Edit.apply
      dsimp only
      rw [List.modify_eq_self hout]
  | some entry =>
      rw [hentry] at hrule
      cases field with
      | grant =>
          have hplace : (entry.rule.patch { grant := some (toInt32 entry.grant ^^^ bit).toInt }) =
              entry.rule.toggle .grant bit := by
            simp only [Rule.patch, Rule.toggle, Option.map_some, Option.getD_some, toInt32_toInt]
            rfl
          refine (self.permissions_patchAcl aclIdx _).trans ?_
          rw [modify_congr (·.toggle .grant bit) hrule hplace]
          rfl
      | deny =>
          have hplace : (entry.rule.patch { deny := some (toInt32 entry.deny ^^^ bit).toInt }) =
              entry.rule.toggle .deny bit := by
            simp only [Rule.patch, Rule.toggle, Option.map_some, Option.getD_some, toInt32_toInt]
            rfl
          refine (self.permissions_patchAcl aclIdx _).trans ?_
          rw [modify_congr (·.toggle .deny bit) hrule hplace]
          rfl

theorem roleIdx_eq (roleName : String) :
    self.roleIdx roleName = self.permissions.groups.findIdx? (·.name == roleName) := by
  show _ = (self.groups.map AclGroup.role).findIdx? (·.name == roleName)
  rw [List.findIdx?_map]
  rfl

theorem permissions_patchRole (roleName : String) (patch : GroupPatch) :
    (self.patchRole roleName patch).permissions =
      (Edit.patchRole roleName patch).apply self.permissions := by
  show _ = { self.permissions with
    groups := updateFirst (·.name == roleName) (·.patch patch) self.permissions.groups }
  unfold patchRole updateFirst
  rw [roleIdx_eq]
  cases self.permissions.groups.findIdx? (·.name == roleName) with
  | none => rfl
  | some idx => exact self.permissions_patchGroup idx patch

theorem permissions_deleteRole (roleName : String) :
    (self.deleteRole roleName).permissions =
      (Edit.deleteRole roleName).apply self.permissions := by
  show _ = { self.permissions with
    groups := self.permissions.groups.eraseP (·.name == roleName) }
  unfold deleteRole
  rw [roleIdx_eq, List.eraseP_eq_eraseIdx]
  cases self.permissions.groups.findIdx? (·.name == roleName) with
  | none => rfl
  | some idx => exact self.permissions_removeGroup idx

theorem findRoleAclIndex_eq (roleName : String) :
    self.findRoleAclIndex roleName =
      self.permissions.rules.findIdx? (Rule.isFor roleName) := by
  show _ = (self.acls.map AclEntry.rule).findIdx? (Rule.isFor roleName)
  rw [List.findIdx?_map]
  rfl

theorem rules_mapAt {acls : List AclEntry} {idx : ℕ} {target : AclEntry}
    (h : acls[idx]? = some target) (bit : BitVec 32) (allow : Bool) :
    (mapAt idx (fun _ => withPerm target bit allow) acls).map AclEntry.rule =
      (acls.map AclEntry.rule).modify idx (·.withPerm bit allow) := by
  rw [mapAt_eq, modify_congr (withPerm · bit allow) h rfl,
    map_modify AclEntry.rule (·.withPerm bit allow) fun a => rule_withPerm a bit allow]

theorem permissions_togglePerm (roleName : String) (bit : BitVec 32) (allow : Bool) :
    (self.togglePerm roleName bit allow).permissions =
      (Edit.togglePerm roleName bit allow).apply self.permissions := by
  have hindex := self.findRoleAclIndex_eq roleName
  unfold togglePerm ensureRoleAcl
  cases hidx : self.findRoleAclIndex roleName with
  | some idx =>
      rw [hidx] at hindex
      have hany : self.permissions.rules.any (Rule.isFor roleName) = true := by
        rw [← List.findIdx?_isSome, ← hindex]
        rfl
      obtain ⟨hlt, -⟩ := List.findIdx?_eq_some_iff_getElem.mp hidx
      have hentry : self.acls[idx]? = some self.acls[idx] := List.getElem?_eq_getElem hlt
      unfold Edit.apply updateFirst
      dsimp only
      rw [hentry, if_pos hany, ← hindex]
      dsimp only
      unfold permissions
      dsimp only
      rw [rules_mapAt hentry]
  | none =>
      rw [hidx] at hindex
      have hany : ¬self.permissions.rules.any (Rule.isFor roleName) = true := by
        rw [← List.findIdx?_isSome, ← hindex]
        exact Bool.false_ne_true
      unfold Edit.apply
      dsimp only
      rw [List.getElem?_concat_length, if_neg hany]
      dsimp only
      unfold permissions
      dsimp only
      rw [rules_mapAt List.getElem?_concat_length, List.map_append, List.map_singleton]
      have hlast := modify_concat (self.acls.map AclEntry.rule) (newRule roleName)
        (·.withPerm bit allow)
      rw [List.length_map] at hlast
      rw [← hlast]
      rfl

theorem permissions_createRole :
    self.createRole.permissions = Edit.createRole.apply self.permissions := by
  have hnames : self.permissions.groups.map Role.name = self.groups.map AclGroup.name :=
    List.map_map
  unfold Edit.apply
  dsimp only
  rw [hnames]
  unfold createRole permissions
  dsimp only
  rw [List.map_append]
  rfl

theorem permissions_edited (edit : Edit) :
    (self.edited edit).permissions = edit.apply self.permissions := by
  cases edit with
  | toggleInherit => rfl
  | patchGroup idx patch => exact self.permissions_patchGroup idx patch
  | addGroup =>
      unfold edited addGroup permissions Edit.apply
      dsimp only
      rw [List.map_append]
      rfl
  | removeGroup idx => exact self.permissions_removeGroup idx
  | patchAcl idx patch => exact self.permissions_patchAcl idx patch
  | addAcl =>
      unfold edited addAcl permissions Edit.apply
      dsimp only
      rw [List.map_append]
      rfl
  | removeAcl idx =>
      unfold edited removeAcl permissions Edit.apply
      dsimp only
      rw [filterAt_eq, List.eraseIdx_map]
  | togglePermBit aclIdx field bit => exact self.permissions_togglePermBit aclIdx field bit
  | patchRole roleName patch => exact self.permissions_patchRole roleName patch
  | togglePerm roleName bit allow => exact self.permissions_togglePerm roleName bit allow
  | createRole => exact self.permissions_createRole
  | deleteRole roleName => exact self.permissions_deleteRole roleName

theorem channelId_edited (edit : Edit) : (self.edited edit).channelId = self.channelId := by
  have hchannel : (self.edited edit).permissions.channel = self.permissions.channel := by
    rw [permissions_edited]
    cases edit <;> rfl
  exact hchannel

end AclData

end FancyMumble.Interface.Acl
