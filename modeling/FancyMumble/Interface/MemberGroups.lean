import FancyMumble.Interface.Acl

/-!
# The member list

The members tab puts connected and registered users into sections by the groups of the access
control list. Rows are collected in buckets, which share their names with the groups.
-/

namespace FancyMumble.Interface.MemberGroups

open Interface.Acl
open Lib.Grouping

structure UserEntry where
  session : Int
  name : String
  channelId : UInt32
  userId : Option UInt32
  textureSize : Option ℕ
  comment : Option String
  mute : Bool
  deaf : Bool
  suppress : Bool
  selfMute : Bool
  selfDeaf : Bool
  prioritySpeaker : Bool
  hash : Option String
deriving DecidableEq

structure RegisteredUser where
  userId : UInt32
  name : String
  lastChannel : Option UInt32
  texture : Option (List UInt8)
  comment : Option String

structure MemberRow where
  entry : UserEntry
  offline : Bool
deriving DecidableEq

structure MemberGroup where
  key : String
  label : String
  color : Option String
  rows : List MemberRow

def keyNoGroup : String := "__no_group__"

def keyGuests : String := "__guests__"

def synthesiseOfflineEntry (reg : RegisteredUser) (fetchedComments : UInt32 → Option String) :
    UserEntry where
  session := -((reg.userId.toNat : Int) + 1)
  name := reg.name
  channelId := reg.lastChannel.getD 0
  userId := some reg.userId
  textureSize := (reg.texture.filter (· ≠ [])).map List.length
  comment := (fetchedComments reg.userId).or reg.comment
  mute := false
  deaf := false
  suppress := false
  selfMute := false
  selfDeaf := false
  prioritySpeaker := false
  hash := none

/-! ## Groups of users -/

structure GroupMap where
  userIdToGroup : UInt32 → Option String
  groupOrder : List String
  groupColors : String → Option String

def isSystem (g : AclGroup) : Bool := "~".toList.isPrefixOf g.name.toList

def assign (g : AclGroup) (state : (UInt32 → Option String) × Bool) (uid : UInt32) :
    (UInt32 → Option String) × Bool :=
  if uid ∈ g.remove then state
  else if state.1 uid = none then (Function.update state.1 uid (some g.name), true)
  else state

def addColor (colors : String → Option String) (g : AclGroup) : String → Option String :=
  match g.color with
  | some color =>
      if color ≠ "" ∧ colors g.name = none then Function.update colors g.name (some color)
      else colors
  | none => colors

def addGroup (m : GroupMap) (g : AclGroup) : GroupMap :=
  if isSystem g then m
  else
    let assigned := (g.add ++ g.inheritedMembers).foldl (assign g) (m.userIdToGroup, false)
    { userIdToGroup := assigned.1
      groupOrder :=
        if assigned.2 ∧ g.name ∉ m.groupOrder then m.groupOrder ++ [g.name] else m.groupOrder
      groupColors := addColor m.groupColors g }

def buildUserGroupMap (aclGroups : List AclGroup) : GroupMap :=
  aclGroups.foldl addGroup
    { userIdToGroup := fun _ => none, groupOrder := [], groupColors := fun _ => none }

/-! ## Buckets and sections -/

section Sections

variable (localeCompare : String → String → Int)

def compareRows (a b : MemberRow) : Int :=
  if a.offline ≠ b.offline then if a.offline then 1 else -1
  else localeCompare a.entry.name b.entry.name

def bucketKey (userIdToGroup : UInt32 → Option String) (userId : Option UInt32) : String :=
  match userId with
  | none => keyGuests
  | some uid => if uid ≤ 0 then keyGuests else (userIdToGroup uid).getD keyNoGroup

def bucketRows (rows : List MemberRow) (userIdToGroup : UInt32 → Option String) :
    List (String × List MemberRow) :=
  groupBy (fun row => bucketKey userIdToGroup row.entry.userId) id rows

def memberSection (buckets : List (String × List MemberRow)) (key label : String)
    (color : Option String) : List MemberGroup :=
  match buckets.lookup key with
  | none => []
  | some rows =>
      if rows.length = 0 then []
      else
        [{ key, label, color
           rows := rows.mergeSort fun a b => compareRows localeCompare a b ≤ 0 }]

def isOwn (ownSession : Option Int) (u : UserEntry) : Bool := some u.session = ownSession

def onlineUserIds (users : List UserEntry) (ownSession : Option Int) : List UInt32 :=
  (users.filter fun u => ¬ isOwn ownSession u).filterMap fun u => u.userId.filter (· > 0)

def onlineRows (users : List UserEntry) (ownSession : Option Int) : List MemberRow :=
  (users.filter fun u => ¬ isOwn ownSession u).map fun u => { entry := u, offline := false }

def offlineRows (users : List UserEntry) (registered : List RegisteredUser)
    (ownSession : Option Int) (fetchedComments : UInt32 → Option String) : List MemberRow :=
  (registered.filter fun r => r.userId ∉ onlineUserIds users ownSession).map fun r =>
    { entry := synthesiseOfflineEntry r fetchedComments, offline := true }

def buildMemberGroups (users : List UserEntry) (registered : List RegisteredUser)
    (ownSession : Option Int) (aclGroups : List AclGroup)
    (fetchedComments : UInt32 → Option String) : List MemberGroup :=
  let m := buildUserGroupMap aclGroups
  let buckets := bucketRows (onlineRows users ownSession ++
    offlineRows users registered ownSession fetchedComments) m.userIdToGroup
  m.groupOrder.flatMap (fun name =>
      memberSection localeCompare buckets name name (m.groupColors name)) ++
    memberSection localeCompare buckets keyNoGroup "Members" none ++
    memberSection localeCompare buckets keyGuests "Guests" none

end Sections

/-! ## What the list should show -/

def Contains (g : AclGroup) (uid : UInt32) : Prop :=
  uid ∈ g.add ++ g.inheritedMembers ∧ uid ∉ g.remove

instance (g : AclGroup) (uid : UInt32) : Decidable (Contains g uid) :=
  inferInstanceAs (Decidable (_ ∧ _))

def groupOf (aclGroups : List AclGroup) (uid : UInt32) : Option String :=
  (aclGroups.find? fun g => ¬ isSystem g ∧ Contains g uid).map (·.name)

/-- The key and the label of the section that a user belongs to. Users without a positive id are
not registered. -/
def place (aclGroups : List AclGroup) (userId : Option UInt32) : String × String :=
  match userId with
  | none => (keyGuests, "Guests")
  | some uid =>
      if uid ≤ 0 then (keyGuests, "Guests")
      else
        match groupOf aclGroups uid with
        | some name => (name, name)
        | none => (keyNoGroup, "Members")

def Connected (users : List UserEntry) (uid : UInt32) : Prop := ∃ u ∈ users, u.userId = some uid

instance (users : List UserEntry) (uid : UInt32) : Decidable (Connected users uid) :=
  inferInstanceAs (Decidable (∃ u ∈ users, _))

def shown (groups : List MemberGroup) : List MemberRow := groups.flatMap (·.rows)

/-- Sections show everybody but the own user once, in the right place. -/
structure IsPartition (users : List UserEntry) (registered : List RegisteredUser)
    (ownSession : Option Int) (aclGroups : List AclGroup) (groups : List MemberGroup) : Prop where
  connected_once : ∀ u ∈ users, ¬ isOwn ownSession u →
    (shown groups).countP (fun row => ¬ row.offline ∧ row.entry.session = u.session) = 1
  registered_once : ∀ r ∈ registered, ¬ Connected users r.userId →
    (shown groups).countP (fun row => row.offline ∧ row.entry.userId = some r.userId) = 1
  online_only : ∀ row ∈ shown groups, ¬ row.offline →
    row.entry ∈ users ∧ ¬ isOwn ownSession row.entry
  offline_only : ∀ row ∈ shown groups, row.offline →
    ∃ r ∈ registered, row.entry.userId = some r.userId ∧ row.entry.name = r.name ∧
      ¬ Connected users r.userId
  own_never : ∀ u ∈ users, isOwn ownSession u → ∀ row ∈ shown groups,
    if row.offline then row.entry.userId ≠ u.userId else row.entry.session ≠ u.session
  placed : ∀ g ∈ groups, ∀ row ∈ g.rows, (g.key, g.label) = place aclGroups row.entry.userId

def ToShow (users : List UserEntry) (registered : List RegisteredUser) (ownSession : Option Int)
    (userId : Option UInt32) : Prop :=
  (∃ u ∈ users, ¬ isOwn ownSession u ∧ u.userId = userId) ∨
    ∃ r ∈ registered, ¬ Connected users r.userId ∧ some r.userId = userId

/-- What the list relies on. Names of groups may be the keys of the other sections only as long
as nobody is in those. -/
structure Distinguishable (users : List UserEntry) (registered : List RegisteredUser)
    (ownSession : Option Int) (aclGroups : List AclGroup) : Prop where
  sessions : ((users.filter fun u => ¬ isOwn ownSession u).map (·.session)).Nodup
  ids : ((registered.filter fun r => ¬ Connected users r.userId).map (·.userId)).Nodup
  matched : ∀ r ∈ registered, Connected users r.userId →
    r.userId > 0 ∧ ∃ u ∈ users, ¬ isOwn ownSession u ∧ u.userId = some r.userId
  keys : ∀ key ∈ [keyNoGroup, keyGuests], (∃ uid, groupOf aclGroups uid = some key) →
    ∀ userId, ToShow users registered ownSession userId → (place aclGroups userId).1 ≠ key

/-! ## The map of groups -/

theorem foldl_assign_fst (g : AclGroup) (members : List UInt32)
    (state : (UInt32 → Option String) × Bool) (uid : UInt32) :
    (members.foldl (assign g) state).1 uid =
      (state.1 uid).or (if uid ∈ members ∧ uid ∉ g.remove then some g.name else none) := by
  induction members generalizing state with
  | nil => simp
  | cons member members ih =>
      rw [List.foldl_cons, ih]
      unfold assign
      by_cases hremove : member ∈ g.remove
      · rw [if_pos hremove]
        by_cases huid : uid = member
        · subst huid
          simp [hremove]
        · simp [huid]
      · rw [if_neg hremove]
        by_cases hnone : state.1 member = none
        · rw [if_pos hnone]
          by_cases huid : uid = member
          · subst huid
            simp [hnone, hremove]
          · simp [huid]
        · rw [if_neg hnone]
          by_cases huid : uid = member
          · subst huid
            obtain ⟨name, hname⟩ := Option.ne_none_iff_exists'.mp hnone
            simp [hname]
          · simp [huid]

theorem foldl_assign_snd (g : AclGroup) (members : List UInt32)
    (state : (UInt32 → Option String) × Bool) :
    (members.foldl (assign g) state).2 = true ↔
      state.2 = true ∨ ∃ uid ∈ members, uid ∉ g.remove ∧ state.1 uid = none := by
  induction members generalizing state with
  | nil => simp
  | cons member members ih =>
      rw [List.foldl_cons, ih]
      unfold assign
      by_cases hremove : member ∈ g.remove
      · rw [if_pos hremove]
        simp [hremove]
      · rw [if_neg hremove]
        by_cases hnone : state.1 member = none
        · rw [if_pos hnone]
          simp [hremove, hnone]
        · rw [if_neg hnone]
          simp [hnone]

theorem userIdToGroup_addGroup (m : GroupMap) (g : AclGroup) (uid : UInt32) :
    (addGroup m g).userIdToGroup uid =
      (m.userIdToGroup uid).or
        (if ¬ isSystem g ∧ Contains g uid then some g.name else none) := by
  unfold addGroup
  by_cases hsystem : isSystem g = true
  · rw [if_pos hsystem, if_neg fun h => h.1 hsystem, Option.or_none]
  · rw [if_neg hsystem]
    refine (foldl_assign_fst g _ _ uid).trans ?_
    by_cases hcontains : Contains g uid
    · rw [if_pos (show uid ∈ g.add ++ g.inheritedMembers ∧ uid ∉ g.remove from hcontains),
        if_pos ⟨hsystem, hcontains⟩]
    · rw [if_neg (show ¬ (uid ∈ g.add ++ g.inheritedMembers ∧ uid ∉ g.remove) from hcontains),
        if_neg fun h => hcontains h.2]

theorem userIdToGroup_foldl (aclGroups : List AclGroup) (m : GroupMap) (uid : UInt32) :
    (aclGroups.foldl addGroup m).userIdToGroup uid =
      (m.userIdToGroup uid).or (groupOf aclGroups uid) := by
  induction aclGroups generalizing m with
  | nil =>
      rw [List.foldl_nil]
      exact (Option.or_none).symm
  | cons g aclGroups ih =>
      rw [List.foldl_cons, ih, userIdToGroup_addGroup, Option.or_assoc]
      congr 1
      unfold groupOf
      by_cases hg : ¬ isSystem g ∧ Contains g uid
      · rw [if_pos hg, List.find?_cons_of_pos (by simpa using hg)]
        rfl
      · rw [if_neg hg, List.find?_cons_of_neg (by simpa using hg)]
        rfl

theorem userIdToGroup_buildUserGroupMap (aclGroups : List AclGroup) (uid : UInt32) :
    (buildUserGroupMap aclGroups).userIdToGroup uid = groupOf aclGroups uid :=
  (userIdToGroup_foldl aclGroups _ uid).trans Option.none_or

/-- The groups in the order of a map are those that somebody is assigned, each once. -/
structure GroupMap.Ordered (m : GroupMap) : Prop where
  nodup : m.groupOrder.Nodup
  mem_iff : ∀ name, name ∈ m.groupOrder ↔ ∃ uid, m.userIdToGroup uid = some name

theorem groupOrder_addGroup (m : GroupMap) {g : AclGroup} (hsystem : ¬ isSystem g = true) :
    ((∃ uid, Contains g uid ∧ m.userIdToGroup uid = none) ∧ g.name ∉ m.groupOrder ∧
        (addGroup m g).groupOrder = m.groupOrder ++ [g.name]) ∨
      (((∃ uid, Contains g uid ∧ m.userIdToGroup uid = none) → g.name ∈ m.groupOrder) ∧
        (addGroup m g).groupOrder = m.groupOrder) := by
  have hassigned := foldl_assign_snd g (g.add ++ g.inheritedMembers) (m.userIdToGroup, false)
  have hnew : (∃ uid, Contains g uid ∧ m.userIdToGroup uid = none) ↔
      ((g.add ++ g.inheritedMembers).foldl (assign g) (m.userIdToGroup, false)).2 = true := by
    rw [hassigned, or_iff_right Bool.false_ne_true]
    exact exists_congr fun uid => and_assoc
  unfold addGroup
  rw [if_neg hsystem, hnew]
  by_cases h : ((g.add ++ g.inheritedMembers).foldl (assign g) (m.userIdToGroup, false)).2 = true ∧
      g.name ∉ m.groupOrder
  · exact .inl ⟨h.1, h.2, if_pos h⟩
  · exact .inr ⟨fun hany => not_not.mp fun hnot => h ⟨hany, hnot⟩, if_neg h⟩

theorem exists_assigned_addGroup (m : GroupMap) {g : AclGroup} (hsystem : ¬ isSystem g = true)
    (name : String) :
    (∃ uid, (addGroup m g).userIdToGroup uid = some name) ↔
      (∃ uid, m.userIdToGroup uid = some name) ∨
        name = g.name ∧ ∃ uid, Contains g uid ∧ m.userIdToGroup uid = none := by
  constructor
  · rintro ⟨uid, huid⟩
    rw [userIdToGroup_addGroup] at huid
    cases hold : m.userIdToGroup uid with
    | some old =>
        rw [hold, Option.some_or] at huid
        exact .inl ⟨uid, hold.trans huid⟩
    | none =>
        rw [hold, Option.none_or] at huid
        split at huid
        · next hg => exact .inr ⟨(Option.some_inj.mp huid).symm, uid, hg.2, hold⟩
        · cases huid
  · rintro (⟨uid, huid⟩ | ⟨rfl, uid, hcontains, hnone⟩)
    · refine ⟨uid, ?_⟩
      rw [userIdToGroup_addGroup, huid, Option.some_or]
    · refine ⟨uid, ?_⟩
      rw [userIdToGroup_addGroup, hnone, Option.none_or, if_pos ⟨hsystem, hcontains⟩]

theorem GroupMap.Ordered.addGroup {m : GroupMap} (h : m.Ordered) (g : AclGroup) :
    (addGroup m g).Ordered := by
  by_cases hsystem : isSystem g = true
  · unfold MemberGroups.addGroup
    rw [if_pos hsystem]
    exact h
  · rcases groupOrder_addGroup m hsystem with ⟨hnew, hname, horder⟩ | ⟨hnew, horder⟩
    · constructor
      · rw [horder]
        refine List.nodup_append.mpr ⟨h.nodup, List.nodup_singleton _, ?_⟩
        intro a ha b hb heq
        rw [heq, List.mem_singleton.mp hb] at ha
        exact hname ha
      · intro name
        rw [horder, exists_assigned_addGroup m hsystem, ← h.mem_iff, List.mem_append,
          List.mem_singleton]
        exact or_congr_right ⟨fun heq => ⟨heq, hnew⟩, And.left⟩
    · constructor
      · rw [horder]
        exact h.nodup
      · intro name
        rw [horder, exists_assigned_addGroup m hsystem, ← h.mem_iff]
        refine ⟨.inl, fun hor => ?_⟩
        rcases hor with hmem | ⟨heq, hany⟩
        · exact hmem
        · rw [heq]
          exact hnew hany

theorem ordered_buildUserGroupMap (aclGroups : List AclGroup) :
    (buildUserGroupMap aclGroups).Ordered := by
  unfold buildUserGroupMap
  generalize hm : GroupMap.mk (fun _ => none) [] (fun _ => none) = m
  have h : m.Ordered := by
    subst hm
    exact ⟨List.nodup_nil, fun name => by simp⟩
  clear hm
  induction aclGroups generalizing m with
  | nil => exact h
  | cons g aclGroups ih => exact ih _ (h.addGroup g)

theorem mem_groupOrder_iff {aclGroups : List AclGroup} {name : String} :
    name ∈ (buildUserGroupMap aclGroups).groupOrder ↔
      ∃ uid, groupOf aclGroups uid = some name := by
  rw [(ordered_buildUserGroupMap aclGroups).mem_iff]
  simp only [userIdToGroup_buildUserGroupMap]

/-! ## Buckets and sections -/

theorem bucketKey_buildUserGroupMap (aclGroups : List AclGroup) (userId : Option UInt32) :
    bucketKey (buildUserGroupMap aclGroups).userIdToGroup userId = (place aclGroups userId).1 := by
  unfold bucketKey place
  cases userId with
  | none => rfl
  | some uid =>
      by_cases huid : uid ≤ 0
      · simp only [if_pos huid]
      · simp only [if_neg huid, userIdToGroup_buildUserGroupMap]
        cases groupOf aclGroups uid <;> rfl

theorem place_eq (aclGroups : List AclGroup) (userId : Option UInt32) :
    ((∃ uid, groupOf aclGroups uid = some (place aclGroups userId).1) ∧
        (place aclGroups userId).2 = (place aclGroups userId).1) ∨
      place aclGroups userId = (keyNoGroup, "Members") ∨
      place aclGroups userId = (keyGuests, "Guests") := by
  unfold place
  cases userId with
  | none => exact .inr (.inr rfl)
  | some uid =>
      dsimp only
      by_cases huid : uid ≤ 0
      · rw [if_pos huid]
        exact .inr (.inr rfl)
      · rw [if_neg huid]
        cases hgroup : groupOf aclGroups uid with
        | some name => exact .inl ⟨⟨uid, hgroup⟩, rfl⟩
        | none => exact .inr (.inl rfl)

section Sections

variable (localeCompare : String → String → Int)

theorem shown_append (groups later : List MemberGroup) :
    shown (groups ++ later) = shown groups ++ shown later :=
  List.flatMap_append

theorem shown_memberSection (rows : List MemberRow) (userIdToGroup : UInt32 → Option String)
    (key label : String) (color : Option String) :
    (shown (memberSection localeCompare (bucketRows rows userIdToGroup) key label color)).Perm
      (rows.filter fun row => bucketKey userIdToGroup row.entry.userId = key) := by
  have hlookup := (isGrouping_groupBy
    (fun row : MemberRow => bucketKey userIdToGroup row.entry.userId) id rows).lookup key
  rw [List.map_id] at hlookup
  unfold memberSection bucketRows
  rw [hlookup]
  split
  · next hnone =>
      split at hnone
      · cases hnone
      · next hempty =>
          rw [List.filter_eq_nil_iff.mpr]
          · exact List.Perm.refl _
          · intro row hrow hkey
            exact hempty ⟨row, hrow, of_decide_eq_true hkey⟩
  · next bucket hsome =>
      split at hsome
      · obtain rfl := Option.some_inj.mp hsome
        split
        · next hlength =>
            rw [List.length_eq_zero_iff.mp hlength]
            exact List.Perm.refl _
        · unfold shown
          rw [List.flatMap_singleton]
          exact List.mergeSort_perm _ _
      · cases hsome

theorem mem_memberSection {buckets : List (String × List MemberRow)} {key label : String}
    {color : Option String} {g : MemberGroup}
    (h : g ∈ memberSection localeCompare buckets key label color) :
    g.key = key ∧ g.label = label := by
  unfold memberSection at h
  split at h
  · cases h
  · split at h
    · cases h
    · rw [List.mem_singleton.mp h]
      exact ⟨rfl, rfl⟩

variable (users : List UserEntry) (registered : List RegisteredUser) (ownSession : Option Int)
  (aclGroups : List AclGroup) (fetchedComments : UInt32 → Option String)

def allRows : List MemberRow :=
  onlineRows users ownSession ++ offlineRows users registered ownSession fetchedComments

def sectionKeys : List String :=
  (buildUserGroupMap aclGroups).groupOrder ++ [keyNoGroup, keyGuests]

def placeOf (row : MemberRow) : String := (place aclGroups row.entry.userId).1

theorem shown_buildMemberGroups :
    (shown (buildMemberGroups localeCompare users registered ownSession aclGroups
        fetchedComments)).Perm
      ((sectionKeys aclGroups).flatMap fun key =>
        (allRows users registered ownSession fetchedComments).filter fun row =>
          placeOf aclGroups row = key) := by
  have hsection := shown_memberSection localeCompare
    (allRows users registered ownSession fetchedComments)
    (buildUserGroupMap aclGroups).userIdToGroup
  simp only [bucketKey_buildUserGroupMap] at hsection
  unfold buildMemberGroups sectionKeys
  rw [shown_append, shown_append, List.flatMap_append, List.append_assoc]
  refine List.Perm.append ?_ ?_
  · unfold shown
    rw [List.flatMap_assoc]
    exact List.Perm.flatMap_left _ fun name _ => hsection name name _
  · rw [List.flatMap_cons, List.flatMap_singleton]
    exact (hsection keyNoGroup "Members" none).append (hsection keyGuests "Guests" none)

theorem count_shown (row : MemberRow) :
    (shown (buildMemberGroups localeCompare users registered ownSession aclGroups
        fetchedComments)).count row =
      (sectionKeys aclGroups).count (placeOf aclGroups row) *
        (allRows users registered ownSession fetchedComments).count row := by
  rw [(shown_buildMemberGroups localeCompare users registered ownSession aclGroups
    fetchedComments).count_eq]
  exact count_flatMap_filter _ _ _ _

theorem placeOf_mem_sectionKeys (row : MemberRow) :
    placeOf aclGroups row ∈ sectionKeys aclGroups := by
  refine List.mem_append.mpr ?_
  unfold placeOf
  rcases place_eq aclGroups row.entry.userId with ⟨hgroup, -⟩ | hmembers | hguests
  · exact .inl (mem_groupOrder_iff.mpr hgroup)
  · rw [hmembers]
    exact .inr List.mem_cons_self
  · rw [hguests]
    exact .inr (List.mem_cons_of_mem _ List.mem_cons_self)

theorem subperm_shown :
    (allRows users registered ownSession fetchedComments).Subperm
      (shown (buildMemberGroups localeCompare users registered ownSession aclGroups
        fetchedComments)) := by
  rw [List.subperm_iff_count]
  intro row
  rw [count_shown]
  exact Nat.le_mul_of_pos_left _ (List.count_pos_iff.mpr (placeOf_mem_sectionKeys aclGroups row))

theorem mem_shown_iff {row : MemberRow} :
    row ∈ shown (buildMemberGroups localeCompare users registered ownSession aclGroups
        fetchedComments) ↔ row ∈ allRows users registered ownSession fetchedComments := by
  rw [← List.count_pos_iff, count_shown, Nat.mul_pos_iff_of_pos_left, List.count_pos_iff]
  exact List.count_pos_iff.mpr (placeOf_mem_sectionKeys aclGroups row)

end Sections

/-! ## The partition -/

section Partition

variable {users : List UserEntry} {registered : List RegisteredUser} {ownSession : Option Int}
  {aclGroups : List AclGroup} {fetchedComments : UInt32 → Option String}

theorem mem_onlineUserIds {uid : UInt32} :
    uid ∈ onlineUserIds users ownSession ↔
      uid > 0 ∧ ∃ u ∈ users, ¬ isOwn ownSession u ∧ u.userId = some uid := by
  unfold onlineUserIds
  rw [List.mem_filterMap]
  constructor
  · rintro ⟨u, hu, huid⟩
    obtain ⟨hmem, hown⟩ := List.mem_filter.mp hu
    obtain ⟨huid, hpos⟩ := Option.filter_eq_some_iff.mp huid
    exact ⟨of_decide_eq_true hpos, u, hmem, of_decide_eq_true hown, huid⟩
  · rintro ⟨hpos, u, hmem, hown, huid⟩
    exact ⟨u, List.mem_filter.mpr ⟨hmem, decide_eq_true hown⟩,
      Option.filter_eq_some_iff.mpr ⟨huid, decide_eq_true hpos⟩⟩

theorem connected_of_mem_onlineUserIds {uid : UInt32} (h : uid ∈ onlineUserIds users ownSession) :
    Connected users uid := by
  obtain ⟨-, u, hu, -, huid⟩ := mem_onlineUserIds.mp h
  exact ⟨u, hu, huid⟩

theorem mem_allRows {row : MemberRow} :
    row ∈ allRows users registered ownSession fetchedComments ↔
      (∃ u ∈ users, ¬ isOwn ownSession u ∧ row = ⟨u, false⟩) ∨
        ∃ r ∈ registered, r.userId ∉ onlineUserIds users ownSession ∧
          row = ⟨synthesiseOfflineEntry r fetchedComments, true⟩ := by
  unfold allRows onlineRows offlineRows
  rw [List.mem_append, List.mem_map, List.mem_map]
  refine or_congr (exists_congr fun u => ?_) (exists_congr fun r => ?_)
  · rw [List.mem_filter, decide_eq_true_iff, and_assoc, eq_comm (a := row)]
  · rw [List.mem_filter, decide_eq_true_iff, and_assoc, eq_comm (a := row)]

theorem countP_online (users : List UserEntry) (registered : List RegisteredUser)
    (ownSession : Option Int) (fetchedComments : UInt32 → Option String) (session : Int) :
    (allRows users registered ownSession fetchedComments).countP
        (fun row => ¬ row.offline ∧ row.entry.session = session) =
      ((users.filter fun u => ¬ isOwn ownSession u).map (·.session)).count session := by
  unfold allRows onlineRows offlineRows
  rw [List.countP_append, List.countP_map, List.countP_map, List.count, List.countP_map]
  have hnone : (registered.filter fun r => r.userId ∉ onlineUserIds users ownSession).countP
      ((fun row : MemberRow => decide (¬ row.offline ∧ row.entry.session = session)) ∘
        fun r => ⟨synthesiseOfflineEntry r fetchedComments, true⟩) = 0 :=
    List.countP_eq_zero.mpr fun r _ => by simp
  rw [hnone, Nat.add_zero]
  refine List.countP_congr fun u _ => ?_
  simp

theorem countP_offline (users : List UserEntry) (registered : List RegisteredUser)
    (ownSession : Option Int) (fetchedComments : UInt32 → Option String) (uid : UInt32) :
    (allRows users registered ownSession fetchedComments).countP
        (fun row => row.offline ∧ row.entry.userId = some uid) =
      ((registered.filter fun r => r.userId ∉ onlineUserIds users ownSession).map
        (·.userId)).count uid := by
  unfold allRows onlineRows offlineRows
  rw [List.countP_append, List.countP_map, List.countP_map, List.count, List.countP_map]
  have hnone : (users.filter fun u => ¬ isOwn ownSession u).countP
      ((fun row : MemberRow => decide (row.offline ∧ row.entry.userId = some uid)) ∘
        fun u => ⟨u, false⟩) = 0 :=
    List.countP_eq_zero.mpr fun u _ => by simp
  rw [hnone, Nat.zero_add]
  refine List.countP_congr fun r _ => ?_
  simp [synthesiseOfflineEntry]

theorem count_sectionKeys {key : String} (hkey : key ∈ sectionKeys aclGroups)
    (hnames : key ∈ [keyNoGroup, keyGuests] → ¬ ∃ uid, groupOf aclGroups uid = some key) :
    (sectionKeys aclGroups).count key = 1 := by
  have hdistinct : [keyNoGroup, keyGuests].Nodup := by decide
  unfold sectionKeys at hkey ⊢
  rw [List.count_append]
  by_cases hother : key ∈ [keyNoGroup, keyGuests]
  · have hnot : key ∉ (buildUserGroupMap aclGroups).groupOrder := fun hmem =>
      hnames hother (mem_groupOrder_iff.mp hmem)
    rw [List.count_eq_zero.mpr hnot, List.count_eq_one_of_mem hdistinct hother]
  · have hmem := (List.mem_append.mp hkey).resolve_right hother
    rw [List.count_eq_one_of_mem (ordered_buildUserGroupMap aclGroups).nodup hmem,
      List.count_eq_zero.mpr hother]

theorem Distinguishable.not_mem_onlineUserIds_iff
    (h : Distinguishable users registered ownSession aclGroups) {r : RegisteredUser}
    (hr : r ∈ registered) :
    r.userId ∉ onlineUserIds users ownSession ↔ ¬ Connected users r.userId := by
  refine not_congr ⟨connected_of_mem_onlineUserIds, fun hconnected => ?_⟩
  exact mem_onlineUserIds.mpr (h.matched r hr hconnected)

theorem Distinguishable.toShow (h : Distinguishable users registered ownSession aclGroups)
    {row : MemberRow} (hrow : row ∈ allRows users registered ownSession fetchedComments) :
    ToShow users registered ownSession row.entry.userId := by
  rcases mem_allRows.mp hrow with ⟨u, hu, hown, rfl⟩ | ⟨r, hr, hoff, rfl⟩
  · exact .inl ⟨u, hu, hown, rfl⟩
  · exact .inr ⟨r, hr, (h.not_mem_onlineUserIds_iff hr).mp hoff, rfl⟩

theorem Distinguishable.shown_perm (h : Distinguishable users registered ownSession aclGroups)
    (localeCompare : String → String → Int) (fetchedComments : UInt32 → Option String) :
    (shown (buildMemberGroups localeCompare users registered ownSession aclGroups
        fetchedComments)).Perm (allRows users registered ownSession fetchedComments) := by
  rw [List.perm_iff_count]
  intro row
  rw [count_shown]
  by_cases hrow : row ∈ allRows users registered ownSession fetchedComments
  · rw [count_sectionKeys (placeOf_mem_sectionKeys aclGroups row), Nat.one_mul]
    intro hkey hnames
    exact h.keys _ hkey hnames _ (h.toShow hrow) rfl
  · rw [List.count_eq_zero.mpr hrow, Nat.mul_zero]

variable (localeCompare : String → String → Int)

theorem mem_rows_iff (key label : String) (color : Option String) {row : MemberRow} :
    (∃ g ∈ memberSection localeCompare (bucketRows
        (allRows users registered ownSession fetchedComments)
        (buildUserGroupMap aclGroups).userIdToGroup) key label color, row ∈ g.rows) ↔
      row ∈ allRows users registered ownSession fetchedComments ∧ placeOf aclGroups row = key := by
  rw [← List.mem_flatMap]
  refine ((shown_memberSection localeCompare _ _ key label color).mem_iff).trans ?_
  rw [List.mem_filter, decide_eq_true_iff, bucketKey_buildUserGroupMap]
  exact Iff.rfl

theorem mem_buildMemberGroups {g : MemberGroup} :
    g ∈ buildMemberGroups localeCompare users registered ownSession aclGroups fetchedComments ↔
      ∃ key label color,
        g ∈ memberSection localeCompare (bucketRows
          (allRows users registered ownSession fetchedComments)
          (buildUserGroupMap aclGroups).userIdToGroup) key label color ∧
        ((∃ uid, groupOf aclGroups uid = some key) ∧ label = key ∧
            color = (buildUserGroupMap aclGroups).groupColors key ∨
          key = keyNoGroup ∧ label = "Members" ∧ color = none ∨
          key = keyGuests ∧ label = "Guests" ∧ color = none) := by
  unfold buildMemberGroups
  rw [List.mem_append, List.mem_append, List.mem_flatMap]
  constructor
  · rintro ((⟨name, hname, hg⟩ | hg) | hg)
    · exact ⟨name, name, _, hg, .inl ⟨mem_groupOrder_iff.mp hname, rfl, rfl⟩⟩
    · exact ⟨_, _, _, hg, .inr (.inl ⟨rfl, rfl, rfl⟩)⟩
    · exact ⟨_, _, _, hg, .inr (.inr ⟨rfl, rfl, rfl⟩)⟩
  · rintro ⟨key, label, color, hg, ⟨hname, rfl, rfl⟩ | ⟨rfl, rfl, rfl⟩ | ⟨rfl, rfl, rfl⟩⟩
    · exact .inl (.inl ⟨label, mem_groupOrder_iff.mpr hname, hg⟩)
    · exact .inl (.inr hg)
    · exact .inr hg

theorem Distinguishable.placed (h : Distinguishable users registered ownSession aclGroups)
    {g : MemberGroup} {row : MemberRow}
    (hg : g ∈ buildMemberGroups localeCompare users registered ownSession aclGroups
      fetchedComments) (hrow : row ∈ g.rows) :
    (g.key, g.label) = place aclGroups row.entry.userId := by
  obtain ⟨key, label, color, hsection, hkind⟩ := (mem_buildMemberGroups localeCompare).mp hg
  obtain ⟨hmem, hplace⟩ := (mem_rows_iff localeCompare key label color).mp ⟨g, hsection, hrow⟩
  obtain ⟨hk, hl⟩ := mem_memberSection localeCompare hsection
  have hkeys := fun k hk hname => h.keys k hk hname _ (h.toShow hmem)
  unfold placeOf at hplace
  rw [hk, hl]
  rcases hkind with ⟨hname, rfl, -⟩ | ⟨rfl, rfl, -⟩ | ⟨rfl, rfl, -⟩
  · rcases place_eq aclGroups row.entry.userId with ⟨-, hlabel⟩ | hmembers | hguests
    · exact Prod.ext hplace.symm (hlabel.trans hplace).symm
    · rw [hmembers] at hplace
      obtain rfl : keyNoGroup = label := hplace
      exact absurd (congrArg Prod.fst hmembers) (hkeys keyNoGroup List.mem_cons_self hname)
    · rw [hguests] at hplace
      obtain rfl : keyGuests = label := hplace
      exact absurd (congrArg Prod.fst hguests) (hkeys keyGuests (by simp) hname)
  · rcases place_eq aclGroups row.entry.userId with ⟨hname, -⟩ | hmembers | hguests
    · rw [hplace] at hname
      exact absurd hplace (hkeys keyNoGroup List.mem_cons_self hname)
    · exact hmembers.symm
    · rw [hguests] at hplace
      exact absurd hplace (by decide)
  · rcases place_eq aclGroups row.entry.userId with ⟨hname, -⟩ | hmembers | hguests
    · rw [hplace] at hname
      exact absurd hplace (hkeys keyGuests (by simp) hname)
    · rw [hmembers] at hplace
      exact absurd hplace (by decide)
    · exact hguests.symm

theorem Distinguishable.isPartition (h : Distinguishable users registered ownSession aclGroups) :
    IsPartition users registered ownSession aclGroups
      (buildMemberGroups localeCompare users registered ownSession aclGroups fetchedComments) := by
  have hperm := h.shown_perm localeCompare fetchedComments
  refine ⟨?_, ?_, ?_, ?_, ?_, ?_⟩
  · intro u hu hown
    rw [hperm.countP_eq, countP_online]
    refine List.count_eq_one_of_mem h.sessions (List.mem_map_of_mem (List.mem_filter.mpr ⟨hu, ?_⟩))
    exact decide_eq_true hown
  · intro r hr hoff
    have hsame : (registered.filter fun r => r.userId ∉ onlineUserIds users ownSession) =
        registered.filter fun r => ¬ Connected users r.userId :=
      List.filter_congr fun r hr => decide_eq_decide.mpr (h.not_mem_onlineUserIds_iff hr)
    rw [hperm.countP_eq, countP_offline, hsame]
    refine List.count_eq_one_of_mem h.ids (List.mem_map_of_mem (List.mem_filter.mpr ⟨hr, ?_⟩))
    exact decide_eq_true hoff
  · intro row hrow honline
    rcases mem_allRows.mp (hperm.mem_iff.mp hrow) with ⟨u, hu, hown, rfl⟩ | ⟨r, -, -, rfl⟩
    · exact ⟨hu, hown⟩
    · exact absurd rfl honline
  · intro row hrow hoffline
    rcases mem_allRows.mp (hperm.mem_iff.mp hrow) with ⟨u, -, -, rfl⟩ | ⟨r, hr, hoff, rfl⟩
    · exact absurd hoffline Bool.false_ne_true
    · exact ⟨r, hr, rfl, rfl, (h.not_mem_onlineUserIds_iff hr).mp hoff⟩
  · intro u hu hown row hrow
    rcases mem_allRows.mp (hperm.mem_iff.mp hrow) with ⟨u', -, hown', rfl⟩ | ⟨r, hr, hoff, rfl⟩
    · rw [if_neg Bool.false_ne_true]
      intro heq
      unfold isOwn at hown hown'
      rw [heq] at hown'
      exact hown' hown
    · rw [if_pos rfl]
      intro heq
      exact (h.not_mem_onlineUserIds_iff hr).mp hoff ⟨u, hu, heq.symm⟩
  · exact fun g hg row hrow => h.placed localeCompare hg hrow

theorem keys_of_placed
    (h : ∀ g ∈ buildMemberGroups localeCompare users registered ownSession aclGroups
      fetchedComments, ∀ row ∈ g.rows, (g.key, g.label) = place aclGroups row.entry.userId)
    {key label : String} (hkind : key = keyNoGroup ∧ label = "Members" ∨
      key = keyGuests ∧ label = "Guests")
    (hname : ∃ uid, groupOf aclGroups uid = some key) {row : MemberRow}
    (hrow : row ∈ allRows users registered ownSession fetchedComments) :
    placeOf aclGroups row ≠ key := by
  intro hplace
  have hne : key ≠ label := by
    rcases hkind with ⟨rfl, rfl⟩ | ⟨rfl, rfl⟩
    · decide
    · decide
  obtain ⟨g, hg, hmem⟩ := (mem_rows_iff localeCompare key key
    ((buildUserGroupMap aclGroups).groupColors key)).mpr ⟨hrow, hplace⟩
  obtain ⟨g', hg', hmem'⟩ := (mem_rows_iff localeCompare key label none).mpr ⟨hrow, hplace⟩
  have hfirst := h g ((mem_buildMemberGroups localeCompare).mpr
    ⟨key, key, _, hg, .inl ⟨hname, rfl, rfl⟩⟩) row hmem
  have hsecond := h g' ((mem_buildMemberGroups localeCompare).mpr ⟨key, label, none, hg',
    .inr (hkind.imp (fun hk => ⟨hk.1, hk.2, rfl⟩) fun hk => ⟨hk.1, hk.2, rfl⟩)⟩) row hmem'
  have hsame := congrArg Prod.snd (hfirst.trans hsecond.symm)
  rw [(mem_memberSection localeCompare hg).2, (mem_memberSection localeCompare hg').2] at hsame
  exact hne hsame

theorem IsPartition.distinguishable
    (h : IsPartition users registered ownSession aclGroups
      (buildMemberGroups localeCompare users registered ownSession aclGroups fetchedComments)) :
    Distinguishable users registered ownSession aclGroups := by
  have hsub := subperm_shown localeCompare users registered ownSession aclGroups fetchedComments
  have hoffline : ∀ r ∈ registered, r.userId ∉ onlineUserIds users ownSession →
      ¬ Connected users r.userId := by
    intro r hr hoff
    have hrow := (mem_shown_iff localeCompare users registered ownSession aclGroups
      fetchedComments).mpr (mem_allRows.mpr (.inr ⟨r, hr, hoff, rfl⟩))
    obtain ⟨r', -, huid, -, hoff'⟩ := h.offline_only _ hrow rfl
    rw [Option.some_inj.mp huid]
    exact hoff'
  refine ⟨?_, ?_, ?_, ?_⟩
  · refine List.nodup_iff_count_le_one.mpr fun session => ?_
    by_cases hmem : session ∈ (users.filter fun u => ¬ isOwn ownSession u).map (·.session)
    · obtain ⟨u, hu, rfl⟩ := List.mem_map.mp hmem
      obtain ⟨hu, hown⟩ := List.mem_filter.mp hu
      rw [← h.connected_once u hu (of_decide_eq_true hown),
        ← countP_online users registered ownSession fetchedComments]
      exact hsub.countP_le _
    · rw [List.count_eq_zero.mpr hmem]
      exact Nat.zero_le 1
  · refine List.nodup_iff_count_le_one.mpr fun uid => ?_
    by_cases hmem : uid ∈ (registered.filter fun r => ¬ Connected users r.userId).map (·.userId)
    · obtain ⟨r, hr, rfl⟩ := List.mem_map.mp hmem
      obtain ⟨hr, hoff⟩ := List.mem_filter.mp hr
      have hsame : (registered.filter fun r => ¬ Connected users r.userId) =
          registered.filter fun r => r.userId ∉ onlineUserIds users ownSession :=
        List.filter_congr fun r hr => decide_eq_decide.mpr
          ⟨fun hnot hin => hnot (connected_of_mem_onlineUserIds hin), hoffline r hr⟩
      rw [← h.registered_once r hr (of_decide_eq_true hoff), hsame,
        ← countP_offline users registered ownSession fetchedComments]
      exact hsub.countP_le _
    · rw [List.count_eq_zero.mpr hmem]
      exact Nat.zero_le 1
  · intro r hr hconnected
    refine mem_onlineUserIds.mp (not_not.mp fun hoff => ?_)
    exact hoffline r hr hoff hconnected
  · intro key hkey hname userId hshow
    have hrow : ∃ row ∈ allRows users registered ownSession fetchedComments,
        row.entry.userId = userId := by
      rcases hshow with ⟨u, hu, hown, rfl⟩ | ⟨r, hr, hoff, rfl⟩
      · exact ⟨⟨u, false⟩, mem_allRows.mpr (.inl ⟨u, hu, hown, rfl⟩), rfl⟩
      · refine ⟨⟨synthesiseOfflineEntry r fetchedComments, true⟩, ?_, rfl⟩
        exact mem_allRows.mpr
          (.inr ⟨r, hr, fun hin => hoff (connected_of_mem_onlineUserIds hin), rfl⟩)
    obtain ⟨row, hrow, rfl⟩ := hrow
    rcases List.mem_cons.mp hkey with rfl | hkey
    · exact keys_of_placed localeCompare h.placed (.inl ⟨rfl, rfl⟩) hname hrow
    · obtain rfl := List.mem_singleton.mp hkey
      exact keys_of_placed localeCompare h.placed (.inr ⟨rfl, rfl⟩) hname hrow

end Partition

/-- The member list is a partition exactly if those it shows can be told apart. -/
theorem buildMemberGroups_isPartition_iff (localeCompare : String → String → Int)
    (users : List UserEntry) (registered : List RegisteredUser) (ownSession : Option Int)
    (aclGroups : List AclGroup) (fetchedComments : UInt32 → Option String) :
    IsPartition users registered ownSession aclGroups
        (buildMemberGroups localeCompare users registered ownSession aclGroups fetchedComments) ↔
      Distinguishable users registered ownSession aclGroups :=
  ⟨IsPartition.distinguishable localeCompare, Distinguishable.isPartition localeCompare⟩


def ownUser : UserEntry where
  session := 1
  name := "Me"
  channelId := 0
  userId := some 10
  textureSize := none
  comment := none
  mute := false
  deaf := false
  suppress := false
  selfMute := false
  selfDeaf := false
  prioritySpeaker := false
  hash := none

def ownRegistration : RegisteredUser where
  userId := 10
  name := "Me"
  lastChannel := none
  texture := none
  comment := none

/-- The own user is skipped before its user id is noted, and shown as offline. -/
theorem own_user_shown_offline :
    ¬ IsPartition [ownUser] [ownRegistration] (some 1) []
      (buildMemberGroups (fun _ _ => 0) [ownUser] [ownRegistration] (some 1) []
        fun _ => none) := by
  intro h
  have hrow := (mem_shown_iff (fun _ _ => 0) [ownUser] [ownRegistration] (some 1) []
    fun _ => none).mpr (mem_allRows.mpr
      (.inr ⟨ownRegistration, List.mem_cons_self, by decide, rfl⟩))
  exact h.own_never ownUser List.mem_cons_self (by decide) _ hrow rfl

end FancyMumble.Interface.MemberGroups
