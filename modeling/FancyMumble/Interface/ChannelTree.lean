import FancyMumble.Lib.Forests

/-!
# The tree of channels

The classic list of channels follows the parents that the server announces. It counts, collects and
sorts by recursion from the root, without remembering where it has been.
-/

namespace FancyMumble.Interface.ChannelTree

open Lib.Forests

structure ChannelEntry where
  id : UInt32
  parentId : Option UInt32
  name : String
deriving DecidableEq

structure UserEntry where
  session : UInt32
  channelId : UInt32
deriving DecidableEq

/-- A row of the list: a channel with its users, or a folder with the number of its members. -/
structure Row where
  channel : UInt32
  depth : ℕ
  members : Option ℕ
  users : List UserEntry

section Model

variable (localeCompare : String → String → Int) (channels : List ChannelEntry)
  (users : List UserEntry)

def usersByChannel (id : UInt32) : List UserEntry := users.filter (·.channelId = id)

def root : Option ChannelEntry :=
  channels.find? fun c => c.parentId = none ∨ c.parentId = some c.id

def directChildren (id : UInt32) : List ChannelEntry :=
  channels.filter fun c => c.parentId = some id ∧ c.id ≠ id

def subtreeUserCount : ℕ → UInt32 → Option ℕ
  | 0, _ => none
  | n + 1, id =>
      ((directChildren channels id).mapM fun ch => subtreeUserCount n ch.id).map fun totals =>
        (usersByChannel users id).length + totals.foldl (· + ·) 0

def subtreeUsers : ℕ → UInt32 → Option (List UserEntry)
  | 0, _ => none
  | n + 1, id =>
      ((directChildren channels id).mapM fun ch => subtreeUsers n ch.id).map fun lists =>
        usersByChannel users id ++ lists.flatten

def compareChannels (count : UInt32 → ℕ) (a b : ChannelEntry) : Int :=
  if count a.id > 0 ∧ count b.id = 0 then -1
  else if count a.id = 0 ∧ count b.id > 0 then 1
  else localeCompare a.name b.name

def sortChildren (count : UInt32 → ℕ) (id : UInt32) : List ChannelEntry :=
  (directChildren channels id).mergeSort fun a b => compareChannels localeCompare count a b ≤ 0

def sortedDirectChildren (n : ℕ) (id : UInt32) : Option (List ChannelEntry) :=
  ((directChildren channels id).mapM fun c => subtreeUserCount channels users n c.id).map
    fun _ => sortChildren localeCompare channels
      (fun c => (subtreeUserCount channels users n c).getD 0) id

/-- The rows of a channel, followed to some depth, where other recursions have a limit. -/
def renderChannel (expanded : UInt32 → Bool) (limit : ℕ) :
    ℕ → ℕ → UInt32 → Option (List Row)
  | 0, _, _ => none
  | n + 1, depth, id => do
      let kids ← sortedDirectChildren localeCompare channels users limit id
      if kids = [] then
        some [{ channel := id, depth, members := none, users := usersByChannel users id }]
      else do
        let totalUsers ← subtreeUserCount channels users limit id
        let allUsers ← subtreeUsers channels users limit id
        let below ← if expanded id then
            kids.mapM fun ch => renderChannel expanded limit n (depth + 1) ch.id
          else some []
        some ({ channel := id, depth, members := some totalUsers, users := allUsers } ::
          below.flatten)

def renderList (expanded : UInt32 → Bool) (limit : ℕ) (rootId : UInt32) : Option (List Row) := do
  let kids ← sortedDirectChildren localeCompare channels users limit rootId
  let rows ← kids.mapM fun ch =>
    renderChannel localeCompare channels users expanded limit limit 0 ch.id
  some rows.flatten

end Model

/-! ## Chains of parents -/

/-- The chain of parents of a channel reaches another. -/
def Reaches (channels : List ChannelEntry) : UInt32 → UInt32 → Prop :=
  Relation.ReflTransGen fun x y => ∃ c ∈ channels, c.id = x ∧ c.parentId = some y

def above (channels : List ChannelEntry) (id : UInt32) : Option UInt32 :=
  ((channels.find? (·.id = id)).bind (·.parentId)).filter (· ≠ id)

def childIds (channels : List ChannelEntry) (id : UInt32) : List UInt32 :=
  (directChildren channels id).map (·.id)

section Chains

variable {channels : List ChannelEntry} (hdistinct : (channels.map (·.id)).Nodup)

include hdistinct

theorem find?_id {c : ChannelEntry} (hc : c ∈ channels) :
    channels.find? (·.id = c.id) = some c := by
  induction channels with
  | nil => cases hc
  | cons d channels ih =>
      rw [List.map_cons, List.nodup_cons] at hdistinct
      by_cases hd : d.id = c.id
      · rw [List.find?_cons_of_pos (by simpa using hd)]
        cases hc with
        | head => rfl
        | tail _ hc => exact absurd (List.mem_map.mpr ⟨c, hc, hd.symm⟩) hdistinct.1
      · rw [List.find?_cons_of_neg (by simpa using hd)]
        cases hc with
        | head => exact absurd rfl hd
        | tail _ hc => exact ih hdistinct.2 hc

theorem above_eq_some_iff {x y : UInt32} :
    above channels x = some y ↔ ∃ c ∈ channels, c.id = x ∧ c.parentId = some y ∧ x ≠ y := by
  unfold above
  constructor
  · intro h
    obtain ⟨hparent, hne⟩ := Option.filter_eq_some_iff.mp h
    obtain ⟨c, hfind, hc⟩ := Option.bind_eq_some_iff.mp hparent
    have hid : c.id = x := by simpa using List.find?_some hfind
    refine ⟨c, List.mem_of_find?_eq_some hfind, hid, hc, ?_⟩
    exact fun hxy => of_decide_eq_true hne hxy.symm
  · rintro ⟨c, hc, rfl, hparent, hne⟩
    rw [find?_id hdistinct hc, Option.bind_some, hparent]
    exact Option.filter_eq_some_iff.mpr ⟨rfl, decide_eq_true hne.symm⟩

theorem mem_childIds_iff (a b : UInt32) : b ∈ childIds channels a ↔ above channels b = some a := by
  rw [above_eq_some_iff hdistinct, childIds, List.mem_map]
  constructor
  · rintro ⟨c, hc, rfl⟩
    obtain ⟨hmem, hchild⟩ := List.mem_filter.mp hc
    obtain ⟨hparent, hne⟩ := of_decide_eq_true hchild
    exact ⟨c, hmem, rfl, hparent, hne⟩
  · rintro ⟨c, hc, rfl, hparent, hne⟩
    exact ⟨c, List.mem_filter.mpr ⟨hc, decide_eq_true ⟨hparent, hne⟩⟩, rfl⟩

theorem nodup_childIds (a : UInt32) : (childIds channels a).Nodup :=
  hdistinct.sublist (List.filter_sublist.map _)

theorem reaches_iff {x y : UInt32} :
    Reaches channels x y ↔ ∃ k, climb (above channels) k x = some y := by
  constructor
  · intro h
    induction h with
    | refl => exact ⟨0, rfl⟩
    | @tail b c _ hstep ih =>
        obtain ⟨k, hk⟩ := ih
        obtain ⟨d, hd, hid, hparent⟩ := hstep
        by_cases hbc : b = c
        · exact ⟨k, hbc ▸ hk⟩
        · refine ⟨k + 1, ?_⟩
          change (climb (above channels) k x).bind (above channels) = some c
          rw [hk, Option.bind_some]
          exact (above_eq_some_iff hdistinct).mpr ⟨d, hd, hid, hparent, hbc⟩
  · rintro ⟨k, hk⟩
    induction k generalizing y with
    | zero =>
        obtain rfl := Option.some.inj hk
        exact .refl
    | succ k ih =>
        obtain ⟨b, hb, habove⟩ := Option.bind_eq_some_iff.mp hk
        obtain ⟨d, hd, hid, hparent, -⟩ := (above_eq_some_iff hdistinct).mp habove
        exact .tail (ih hb) ⟨d, hd, hid, hparent⟩

end Chains

/-! ## Counting and collecting -/

section Users

variable {channels : List ChannelEntry} {users : List UserEntry}

def usersOf (users : List UserEntry) (ids : List UInt32) : List UserEntry :=
  ids.flatMap (usersByChannel users)

theorem foldl_add (totals : List ℕ) (n : ℕ) :
    totals.foldl (· + ·) n = n + totals.foldl (· + ·) 0 := by
  induction totals generalizing n with
  | nil => rfl
  | cons total totals ih =>
      rw [List.foldl_cons, List.foldl_cons, ih (n + total), ih (0 + total)]
      omega

theorem foldl_length_usersOf (below : List (List UInt32)) :
    (below.map fun ids => (usersOf users ids).length).foldl (· + ·) 0 =
      (usersOf users below.flatten).length := by
  induction below with
  | nil => rfl
  | cons ids below ih =>
      rw [List.map_cons, List.foldl_cons, foldl_add, ih, List.flatten_cons, usersOf, usersOf,
        usersOf, List.flatMap_append, List.length_append, Nat.zero_add]

theorem flatten_usersOf (below : List (List UInt32)) :
    (below.map (usersOf users)).flatten = usersOf users below.flatten := by
  induction below with
  | nil => rfl
  | cons ids below ih =>
      rw [List.map_cons, List.flatten_cons, ih, List.flatten_cons, usersOf, usersOf, usersOf,
        List.flatMap_append]

theorem subtreeUserCount_eq_foldTree (n : ℕ) (id : UInt32) :
    subtreeUserCount channels users n id = foldTree (childIds channels)
      (fun id totals => (usersByChannel users id).length + totals.foldl (· + ·) 0) n id := by
  induction n generalizing id with
  | zero => rfl
  | succ n ih =>
      rw [subtreeUserCount, foldTree, childIds, List.mapM_map]
      simp only [ih, Function.comp_def]

theorem subtreeUsers_eq_foldTree (n : ℕ) (id : UInt32) :
    subtreeUsers channels users n id = foldTree (childIds channels)
      (fun id lists => usersByChannel users id ++ lists.flatten) n id := by
  induction n generalizing id with
  | zero => rfl
  | succ n ih =>
      rw [subtreeUsers, foldTree, childIds, List.mapM_map]
      simp only [ih, Function.comp_def]

theorem subtreeUserCount_eq {n : ℕ} {id : UInt32} {ids : List UInt32}
    (h : preorder (childIds channels) n id = some ids) :
    subtreeUserCount channels users n id = some (usersOf users ids).length := by
  rw [subtreeUserCount_eq_foldTree]
  refine foldTree_eq_of_preorder (fun ids => (usersOf users ids).length) ?_ h
  intro a below
  rw [foldl_length_usersOf, usersOf, usersOf, List.flatMap_cons, List.length_append]

theorem subtreeUsers_eq {n : ℕ} {id : UInt32} {ids : List UInt32}
    (h : preorder (childIds channels) n id = some ids) :
    subtreeUsers channels users n id = some (usersOf users ids) := by
  rw [subtreeUsers_eq_foldTree]
  refine foldTree_eq_of_preorder (usersOf users) ?_ h
  intro a below
  rw [flatten_usersOf, usersOf, usersOf, List.flatMap_cons]

theorem usersOf_perm {ids : List UInt32} (hids : ids.Nodup) :
    (usersOf users ids).Perm (users.filter fun u => u.channelId ∈ ids) := by
  induction ids with
  | nil => simp [usersOf]
  | cons id ids ih =>
      obtain ⟨hid, hids⟩ := List.nodup_cons.mp hids
      have hsplit := List.filter_append_perm (fun u : UserEntry => u.channelId = id)
        (users.filter fun u => u.channelId ∈ id :: ids)
      have hhere : (users.filter fun u => u.channelId ∈ id :: ids).filter
          (fun u => u.channelId = id) = usersByChannel users id := by
        rw [List.filter_filter]
        refine List.filter_congr fun u _ => ?_
        by_cases hu : u.channelId = id
        · simp [hu]
        · simp [hu]
      have hrest : (users.filter fun u => u.channelId ∈ id :: ids).filter
          (fun u => !decide (u.channelId = id)) = users.filter fun u => u.channelId ∈ ids := by
        rw [List.filter_filter]
        refine List.filter_congr fun u _ => ?_
        by_cases hu : u.channelId = id
        · simp [hu, hid]
        · simp [hu]
      rw [hhere, hrest] at hsplit
      exact ((ih hids).append_left _).trans hsplit

end Users

/-! ## From the root -/

section Root

variable {localeCompare : String → String → Int} {channels : List ChannelEntry}
  {users : List UserEntry} {r : ChannelEntry} {a : UInt32}
  (hdistinct : (channels.map (·.id)).Nodup)

include hdistinct

theorem above_root (hroot : root channels = some r) : above channels r.id = none := by
  have hr : r ∈ channels := List.mem_of_find?_eq_some hroot
  have hparent : r.parentId = none ∨ r.parentId = some r.id := by
    simpa using List.find?_some hroot
  unfold above
  rw [find?_id hdistinct hr, Option.bind_some]
  rcases hparent with h | h
  · rw [h]
    rfl
  · rw [h]
    exact Option.filter_eq_none_iff.mpr fun b hb => by simp [Option.some.inj hb]

theorem mem_ids_of_above {x y : UInt32} (h : above channels x = some y) :
    x ∈ channels.map (·.id) := by
  obtain ⟨c, hc, rfl, -⟩ := (above_eq_some_iff hdistinct).mp h
  exact List.mem_map_of_mem hc

theorem exists_preorder_of_reaches {children : UInt32 → List UInt32}
    (hchildren : ∀ a b, b ∈ children a ↔ above channels b = some a)
    (hroot : root channels = some r) (ha : Reaches channels a r.id) :
    ∃ ids, preorder children channels.length a = some ids := by
  have hr : r.id ∈ channels.map (·.id) := List.mem_map_of_mem (List.mem_of_find?_eq_some hroot)
  obtain ⟨k, hk⟩ := (reaches_iff hdistinct).mp ha
  refine exists_preorder hchildren (above_root hdistinct hroot) hr
    (fun _ _ => mem_ids_of_above hdistinct) hk ?_
  rw [List.length_map]
  exact Nat.le_add_right _ _

theorem mem_preorder_iff_reaches {children : UInt32 → List UInt32} {n : ℕ} {ids : List UInt32}
    (hchildren : ∀ a b, b ∈ children a ↔ above channels b = some a)
    (h : preorder children n a = some ids) (x : UInt32) : x ∈ ids ↔ Reaches channels x a := by
  rw [mem_preorder_iff hchildren h, reaches_iff hdistinct]

theorem nodup_preorder_of_reaches {children : UInt32 → List UInt32} {n : ℕ} {ids : List UInt32}
    (hchildren : ∀ a b, b ∈ children a ↔ above channels b = some a)
    (hnodup : ∀ a, (children a).Nodup) (hroot : root channels = some r)
    (ha : Reaches channels a r.id) (h : preorder children n a = some ids) : ids.Nodup := by
  obtain ⟨k, hk⟩ := (reaches_iff hdistinct).mp ha
  exact nodup_preorder hchildren (above_root hdistinct hroot) hnodup hk h

omit hdistinct in
theorem reaches_of_mem_directChildren (ha : Reaches channels a r.id) {c : ChannelEntry}
    (hc : c ∈ directChildren channels a) : Reaches channels c.id r.id := by
  obtain ⟨hmem, hchild⟩ := List.mem_filter.mp hc
  exact .head ⟨c, hmem, rfl, (of_decide_eq_true hchild).1⟩ ha

theorem counts_of_reaches (hroot : root channels = some r) (ha : Reaches channels a r.id) :
    ∃ (members : List UserEntry) (below : List UInt32),
      subtreeUserCount channels users channels.length a = some members.length ∧
      subtreeUsers channels users channels.length a = some members ∧
      members.Perm (users.filter fun u => u.channelId ∈ below) ∧
      ∀ id, id ∈ below ↔ Reaches channels id a := by
  have hchildren := mem_childIds_iff hdistinct
  obtain ⟨ids, hids⟩ := exists_preorder_of_reaches hdistinct hchildren hroot ha
  have hnodup := nodup_preorder_of_reaches hdistinct hchildren (nodup_childIds hdistinct) hroot ha
    hids
  exact ⟨usersOf users ids, ids, subtreeUserCount_eq hids, subtreeUsers_eq hids,
    usersOf_perm hnodup, mem_preorder_iff_reaches hdistinct hchildren hids⟩

def total (channels : List ChannelEntry) (users : List UserEntry) (id : UInt32) : ℕ :=
  (subtreeUserCount channels users channels.length id).getD 0

theorem sortedDirectChildren_eq (hroot : root channels = some r) (ha : Reaches channels a r.id) :
    sortedDirectChildren localeCompare channels users channels.length a =
      some (sortChildren localeCompare channels (total channels users) a) := by
  obtain ⟨totals, htotals⟩ : ∃ totals, ((directChildren channels a).mapM fun c =>
      subtreeUserCount channels users channels.length c.id) = some totals := by
    refine exists_mapM fun c hc => ?_
    have hreaches := reaches_of_mem_directChildren ha hc
    obtain ⟨members, -, hcount, -⟩ := counts_of_reaches hdistinct hroot hreaches
    exact ⟨members.length, hcount⟩
  rw [sortedDirectChildren, htotals]
  rfl

end Root

theorem sortChildren_perm (localeCompare : String → String → Int) (channels : List ChannelEntry)
    (count : UInt32 → ℕ) (id : UInt32) :
    (sortChildren localeCompare channels count id).Perm (directChildren channels id) :=
  List.mergeSort_perm _ _

/-- What `Array.prototype.sort` needs of a comparison to put a list in its order. -/
structure Orders (localeCompare : String → String → Int) : Prop where
  trans : ∀ a b c, localeCompare a b ≤ 0 → localeCompare b c ≤ 0 → localeCompare a c ≤ 0
  total : ∀ a b, localeCompare a b ≤ 0 ∨ localeCompare b a ≤ 0

/-- Channels with users below them come first, and then the names decide. -/
theorem compareChannels_le_zero_iff {localeCompare : String → String → Int} {count : UInt32 → ℕ}
    {a b : ChannelEntry} :
    compareChannels localeCompare count a b ≤ 0 ↔
      count b.id = 0 ∧ 0 < count a.id ∨
        (count a.id = 0 ↔ count b.id = 0) ∧ localeCompare a.name b.name ≤ 0 := by
  unfold compareChannels
  split
  next h => exact iff_of_true (by decide) (.inl ⟨h.2, h.1⟩)
  next h =>
    split
    next h' => exact iff_of_false (by decide) (by omega)
    next h' => exact ⟨fun hle => .inr ⟨by omega, hle⟩, fun hor => by omega⟩

theorem sortChildren_pairwise {localeCompare : String → String → Int} (h : Orders localeCompare)
    (channels : List ChannelEntry) (count : UInt32 → ℕ) (id : UInt32) :
    (sortChildren localeCompare channels count id).Pairwise fun a b =>
      compareChannels localeCompare count a b ≤ 0 := by
  have htrans (a b c : ChannelEntry) (hab : compareChannels localeCompare count a b ≤ 0)
      (hbc : compareChannels localeCompare count b c ≤ 0) :
      compareChannels localeCompare count a c ≤ 0 := by
    rw [compareChannels_le_zero_iff] at hab hbc ⊢
    have hnames := h.trans a.name b.name c.name
    omega
  have htotal (a b : ChannelEntry) : compareChannels localeCompare count a b ≤ 0 ∨
      compareChannels localeCompare count b a ≤ 0 := by
    rw [compareChannels_le_zero_iff, compareChannels_le_zero_iff]
    have hnames := h.total a.name b.name
    omega
  refine (List.pairwise_mergeSort (fun a b c hab hbc => ?_) (fun a b => ?_) _).imp
    fun hab => of_decide_eq_true hab
  · exact decide_eq_true (htrans a b c (of_decide_eq_true hab) (of_decide_eq_true hbc))
  · rw [Bool.or_eq_true, decide_eq_true_iff, decide_eq_true_iff]
    exact htotal a b

/-! ## Rendering -/

section Rendering

variable (localeCompare : String → String → Int) {channels : List ChannelEntry}
  (users : List UserEntry) (expanded : UInt32 → Bool) {r : ChannelEntry}

def shownIds (localeCompare : String → String → Int) (channels : List ChannelEntry)
    (users : List UserEntry) (id : UInt32) : List UInt32 :=
  (sortChildren localeCompare channels (total channels users) id).map (·.id)

theorem mem_shownIds_iff (hdistinct : (channels.map (·.id)).Nodup) (a b : UInt32) :
    b ∈ shownIds localeCompare channels users a ↔ above channels b = some a := by
  have hperm := (sortChildren_perm localeCompare channels (total channels users) a).map (·.id)
  rw [← mem_childIds_iff hdistinct]
  exact hperm.mem_iff

theorem nodup_shownIds (hdistinct : (channels.map (·.id)).Nodup) (a : UInt32) :
    (shownIds localeCompare channels users a).Nodup := by
  have hperm := (sortChildren_perm localeCompare channels (total channels users) a).map (·.id)
  exact hperm.nodup_iff.mpr (nodup_childIds hdistinct a)

/-- A row has the users of its channel and of the channels below, and a folder their number. -/
def Row.Totals (channels : List ChannelEntry) (users : List UserEntry) (row : Row) : Prop :=
  subtreeUsers channels users channels.length row.channel = some row.users ∧
    ∀ members ∈ row.members, members = row.users.length

/-- Rows that show some of the channels of a list, in its order, and all of them if every folder
is expanded. -/
structure Shows (channels : List ChannelEntry) (users : List UserEntry)
    (expanded : UInt32 → Bool) (rows : List Row) (ids : List UInt32) : Prop where
  sublist : (rows.map (·.channel)).Sublist ids
  whole : (∀ id, expanded id = true) → rows.map (·.channel) = ids
  totals : ∀ row ∈ rows, row.Totals channels users

variable {users expanded} in
theorem Shows.flatten {render : ChannelEntry → Option (List Row)} {kids : List ChannelEntry}
    {below : List (List UInt32)}
    (h : List.Forall₂ (fun c ids => ∃ rows, render c = some rows ∧
      Shows channels users expanded rows ids) kids below) :
    ∃ rows, kids.mapM render = some rows ∧
      Shows channels users expanded rows.flatten below.flatten := by
  induction h with
  | nil => exact ⟨[], rfl, .refl _, fun _ => rfl, fun _ hrow => nomatch hrow⟩
  | cons hhead _ ih =>
      obtain ⟨rows, hrender, hshows⟩ := hhead
      obtain ⟨more, hmore, hrest⟩ := ih
      refine ⟨rows :: more, by rw [List.mapM_cons, hrender, hmore]; rfl, ?_, fun hall => ?_,
        fun row hrow => ?_⟩
      · rw [List.flatten_cons, List.flatten_cons, List.map_append]
        exact hshows.sublist.append hrest.sublist
      · rw [List.flatten_cons, List.flatten_cons, List.map_append, hshows.whole hall,
          hrest.whole hall]
      · rw [List.flatten_cons] at hrow
        exact (List.mem_append.mp hrow).elim (hshows.totals row) (hrest.totals row)

variable {users} in
theorem subtreeUsers_of_leaf {n : ℕ} {a : UInt32} {members : List UserEntry}
    (hleaf : directChildren channels a = [])
    (h : subtreeUsers channels users n a = some members) : members = usersByChannel users a := by
  cases n with
  | zero => cases h
  | succ n =>
      rw [subtreeUsers, hleaf] at h
      cases h
      exact List.append_nil _

theorem exists_renderChannel (hdistinct : (channels.map (·.id)).Nodup)
    (hroot : root channels = some r) {n : ℕ} (depth : ℕ) {a : UInt32} {ids : List UInt32}
    (ha : Reaches channels a r.id)
    (h : preorder (shownIds localeCompare channels users) n a = some ids) :
    ∃ rows, renderChannel localeCompare channels users expanded channels.length n depth a =
      some rows ∧ Shows channels users expanded rows ids := by
  induction n generalizing a depth ids with
  | zero => cases h
  | succ n ih =>
      obtain ⟨below, hbelow, rfl⟩ := Option.map_eq_some_iff.mp h
      have hkids : sortedDirectChildren localeCompare channels users channels.length a = _ :=
        sortedDirectChildren_eq hdistinct hroot ha
      obtain ⟨members, -, hcount, hmembers, -⟩ :=
        @counts_of_reaches channels users r a hdistinct hroot ha
      rw [shownIds, List.mapM_map, mapM_eq_some_iff] at hbelow
      set kids := sortChildren localeCompare channels (total channels users) a with hkidsDef
      rw [renderChannel, hkids]
      dsimp only [bind, Option.bind]
      by_cases hnone : kids = []
      · rw [if_pos hnone]
        rw [hnone] at hbelow
        cases hbelow
        have hperm := sortChildren_perm localeCompare channels (total channels users) a
        rw [← hkidsDef, hnone] at hperm
        refine ⟨_, rfl, .refl _, fun _ => rfl, fun row hrow => ?_⟩
        cases List.mem_singleton.mp hrow
        refine ⟨?_, fun _ hnone => nomatch hnone⟩
        rw [hmembers, subtreeUsers_of_leaf (List.nil_perm.mp hperm) hmembers]
      · have htotals : Row.Totals channels users
            { channel := a, depth, members := some members.length, users := members } :=
          ⟨hmembers, fun _ hlength => (Option.some.inj hlength).symm⟩
        rw [if_neg hnone, hcount, hmembers]
        cases hopen : expanded a with
        | false =>
            refine ⟨_, rfl, ?_, fun hall => ?_, fun row hrow => ?_⟩
            · exact List.singleton_sublist.mpr List.mem_cons_self
            · rw [hall a] at hopen
              cases hopen
            · cases List.mem_singleton.mp hrow
              exact htotals
        | true =>
            have hkid : ∀ c ∈ kids, Reaches channels c.id r.id := by
              intro c hc
              have hperm := sortChildren_perm localeCompare channels (total channels users) a
              exact reaches_of_mem_directChildren ha (hperm.mem_iff.mp hc)
            have hrows := ((List.forall₂_and_left kids below).mpr ⟨hkid, hbelow⟩).imp
              fun c ids hc => ih (depth + 1) hc.1 hc.2
            obtain ⟨rows, hmapM, hshows⟩ := Shows.flatten hrows
            dsimp only
            rw [if_pos rfl, hmapM]
            refine ⟨_, rfl, hshows.sublist.cons_cons a, fun hall => ?_, fun row hrow => ?_⟩
            · exact congrArg (a :: ·) (hshows.whole hall)
            · obtain rfl | hrow := List.mem_cons.mp hrow
              · exact htotals
              · exact hshows.totals row hrow

theorem exists_renderList (hdistinct : (channels.map (·.id)).Nodup)
    (hroot : root channels = some r) :
    ∃ rows ids, renderList localeCompare channels users expanded channels.length r.id = some rows ∧
      preorder (shownIds localeCompare channels users) (channels.length + 1) r.id =
        some (r.id :: ids) ∧ Shows channels users expanded rows ids := by
  have hkids : sortedDirectChildren localeCompare channels users channels.length r.id = _ :=
    sortedDirectChildren_eq hdistinct hroot .refl
  set kids := sortChildren localeCompare channels (total channels users) r.id with hkidsDef
  have hkid : ∀ c ∈ kids, Reaches channels c.id r.id := by
    intro c hc
    have hperm := sortChildren_perm localeCompare channels (total channels users) r.id
    exact reaches_of_mem_directChildren .refl (hperm.mem_iff.mp hc)
  obtain ⟨below, hbelow⟩ : ∃ below, (kids.mapM fun c =>
      preorder (shownIds localeCompare channels users) channels.length c.id) = some below :=
    exists_mapM fun c hc => exists_preorder_of_reaches hdistinct
      (mem_shownIds_iff localeCompare users hdistinct) hroot (hkid c hc)
  have hrows := ((List.forall₂_and_left kids below).mpr ⟨hkid, mapM_eq_some_iff.mp hbelow⟩).imp
    fun c ids hc =>
      exists_renderChannel localeCompare users expanded hdistinct hroot 0 hc.1 hc.2
  obtain ⟨rows, hmapM, hshows⟩ := Shows.flatten hrows
  refine ⟨rows.flatten, below.flatten, ?_, ?_, hshows⟩
  · rw [renderList, hkids]
    dsimp only [bind, Option.bind]
    rw [hmapM]
  · rw [preorder, shownIds, List.mapM_map]
    exact congrArg (Option.map fun below => r.id :: below.flatten) hbelow

end Rendering

/-- Whatever the parents are, the recursions end that begin at the root: they visit each channel
whose chain of parents reaches it once, count each user once in every channel above, and show no
channel twice, each with its users and children in order. -/
theorem recursion_from_root (localeCompare : String → String → Int) (channels : List ChannelEntry)
    (users : List UserEntry) (expanded : UInt32 → Bool) (r : ChannelEntry)
    (hdistinct : (channels.map (·.id)).Nodup) (hroot : root channels = some r) :
    (∃ visited, preorder (childIds channels) channels.length r.id = some visited ∧
      visited.Nodup ∧ ∀ id, id ∈ visited ↔ Reaches channels id r.id) ∧
    (∀ a, Reaches channels a r.id →
      (∃ (members : List UserEntry) (below : List UInt32),
        subtreeUserCount channels users channels.length a = some members.length ∧
        subtreeUsers channels users channels.length a = some members ∧
        members.Perm (users.filter fun u => u.channelId ∈ below) ∧
        ∀ id, id ∈ below ↔ Reaches channels id a) ∧
      ∃ kids, sortedDirectChildren localeCompare channels users channels.length a = some kids ∧
        kids.Perm (directChildren channels a) ∧
        (Orders localeCompare → kids.Pairwise fun a b =>
          compareChannels localeCompare (total channels users) a b ≤ 0)) ∧
    ∃ rows, renderList localeCompare channels users expanded channels.length r.id = some rows ∧
      (rows.map (·.channel)).Nodup ∧ (∀ row ∈ rows, row.Totals channels users) ∧
      (∀ id ∈ rows.map (·.channel), Reaches channels id r.id ∧ id ≠ r.id) ∧
      ((∀ id, expanded id = true) → ∀ id, Reaches channels id r.id → id ≠ r.id →
        id ∈ rows.map (·.channel)) := by
  have hchildren := mem_childIds_iff hdistinct
  refine ⟨?_, fun a ha => ⟨counts_of_reaches hdistinct hroot ha, ?_⟩, ?_⟩
  · obtain ⟨visited, hvisited⟩ := exists_preorder_of_reaches hdistinct hchildren hroot
      (Relation.ReflTransGen.refl (a := r.id))
    exact ⟨visited, hvisited,
      nodup_preorder_of_reaches hdistinct hchildren (nodup_childIds hdistinct) hroot .refl hvisited,
      mem_preorder_iff_reaches hdistinct hchildren hvisited⟩
  · exact ⟨_, sortedDirectChildren_eq hdistinct hroot ha, sortChildren_perm _ _ _ _,
      fun horders => sortChildren_pairwise horders _ _ _⟩
  · obtain ⟨rows, ids, hrows, hids, hshows⟩ := exists_renderList localeCompare users expanded
      hdistinct hroot
    have hshown := mem_shownIds_iff localeCompare users hdistinct
    have hnodup := nodup_preorder_of_reaches hdistinct hshown
      (nodup_shownIds localeCompare users hdistinct) hroot .refl hids
    have hmem := mem_preorder_iff_reaches hdistinct hshown hids
    obtain ⟨hnotMem, hnodup⟩ := List.nodup_cons.mp hnodup
    refine ⟨rows, hrows, hnodup.sublist hshows.sublist, hshows.totals, fun id hid => ?_,
      fun hall id hid hne => ?_⟩
    · have hid := hshows.sublist.subset hid
      exact ⟨(hmem id).mp (List.mem_cons_of_mem _ hid), fun heq => hnotMem (heq ▸ hid)⟩
    · rw [hshows.whole hall]
      exact (List.mem_cons.mp ((hmem id).mpr hid)).resolve_left hne

def lobbyBesideCycle : List ChannelEntry :=
  [⟨0, none, "Lobby"⟩, ⟨1, some 0, "Room"⟩, ⟨2, some 3, "East"⟩, ⟨3, some 2, "West"⟩]

/-- Two channels are each other's parents, and one of them has a user. -/
theorem recursion_from_root_beside_cycle :
    (∃ visited, preorder (childIds lobbyBesideCycle) 4 0 = some visited ∧ visited.Nodup ∧
      ∀ id, id ∈ visited ↔ Reaches lobbyBesideCycle id 0) ∧
    (∃ (members : List UserEntry) (below : List UInt32),
      subtreeUserCount lobbyBesideCycle [⟨7, 1⟩, ⟨8, 3⟩] 4 0 = some members.length ∧
      subtreeUsers lobbyBesideCycle [⟨7, 1⟩, ⟨8, 3⟩] 4 0 = some members ∧
      members.Perm ([⟨7, 1⟩, ⟨8, 3⟩].filter fun u => u.channelId ∈ below) ∧
      ∀ id, id ∈ below ↔ Reaches lobbyBesideCycle id 0) ∧
    ∃ rows, renderList (fun _ _ => 0) lobbyBesideCycle [⟨7, 1⟩, ⟨8, 3⟩] (fun _ => true) 4 0 =
        some rows ∧
      (rows.map (·.channel)).Nodup ∧ ∀ row ∈ rows,
        row.Totals lobbyBesideCycle [⟨7, 1⟩, ⟨8, 3⟩] := by
  obtain ⟨hvisited, hcounts, rows, hrows, hnodup, htotals, -⟩ :=
    recursion_from_root (fun _ _ => 0) lobbyBesideCycle [⟨7, 1⟩, ⟨8, 3⟩] (fun _ => true)
      ⟨0, none, "Lobby"⟩ (by decide) (by decide)
  exact ⟨hvisited, (hcounts 0 .refl).1, rows, hrows, hnodup, htotals⟩

end FancyMumble.Interface.ChannelTree
