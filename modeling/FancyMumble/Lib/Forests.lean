import Mathlib.Data.List.Nodup
import Mathlib.Data.List.Perm.Subperm

/-!
# Forests

Nodes with at most one node above each of them. Below a root, which has none, they form a tree,
whatever the others do: a recursion over children that begins there ends, and visits no node
twice.
-/

namespace FancyMumble.Lib.Forests

variable {α β : Type*} (children : α → List α)

/-- The nodes below a node, itself first, if a recursion of a given depth finds all of them. -/
def preorder : ℕ → α → Option (List α)
  | 0, _ => none
  | n + 1, a => ((children a).mapM (preorder n)).map fun below => a :: below.flatten

def foldTree (combine : α → List β → β) : ℕ → α → Option β
  | 0, _ => none
  | n + 1, a => ((children a).mapM (foldTree combine n)).map (combine a)

def climb (above : α → Option α) : ℕ → α → Option α
  | 0, a => some a
  | n + 1, a => (climb above n a).bind above

variable {children} {above : α → Option α} {a b x root : α} {xs nodes : List α} {k l m n : ℕ}

/-! ## Results of recursions -/

theorem mapM_eq_some_iff {γ δ : Type*} {f : γ → Option δ} {as : List γ} {bs : List δ} :
    as.mapM f = some bs ↔ List.Forall₂ (fun a b => f a = some b) as bs := by
  induction as generalizing bs with
  | nil =>
      constructor
      · intro h
        obtain rfl := Option.some.inj h
        exact .nil
      · intro h
        cases h
        rfl
  | cons a as ih =>
      rw [List.mapM_cons]
      constructor
      · intro h
        obtain ⟨b, hb, hrest⟩ := Option.bind_eq_some_iff.mp h
        obtain ⟨bs', hbs, hcons⟩ := Option.bind_eq_some_iff.mp hrest
        obtain rfl := Option.some.inj hcons
        exact .cons hb (ih.mp hbs)
      · intro h
        cases h with
        | cons hb hbs =>
            rw [hb, ih.mpr hbs]
            rfl

theorem exists_mapM {γ δ : Type*} {f : γ → Option δ} {as : List γ}
    (h : ∀ a ∈ as, ∃ b, f a = some b) : ∃ bs, as.mapM f = some bs := by
  induction as with
  | nil => exact ⟨[], rfl⟩
  | cons a as ih =>
      obtain ⟨hhead, hrest⟩ := List.forall_mem_cons.mp h
      obtain ⟨b, hb⟩ := hhead
      obtain ⟨bs, hbs⟩ := ih hrest
      exact ⟨b :: bs, by rw [List.mapM_cons, hb, hbs]; rfl⟩

section Related

variable {γ δ : Type*} {R : γ → δ → Prop} {as : List γ} {bs : List δ}

theorem exists_right_of_mem (h : List.Forall₂ R as bs) {a : γ} (ha : a ∈ as) :
    ∃ b ∈ bs, R a b := by
  induction h with
  | nil => cases ha
  | cons hab _ ih =>
      cases ha with
      | head => exact ⟨_, List.mem_cons_self, hab⟩
      | tail _ ha =>
          obtain ⟨b, hb, hR⟩ := ih ha
          exact ⟨b, List.mem_cons_of_mem _ hb, hR⟩

theorem exists_left_of_mem (h : List.Forall₂ R as bs) {b : δ} (hb : b ∈ bs) :
    ∃ a ∈ as, R a b := by
  obtain ⟨a, ha, hR⟩ := exists_right_of_mem h.flip hb
  exact ⟨a, ha, hR⟩

theorem nodup_flatten_of_forall₂ {R : γ → List δ → Prop} {lists : List (List δ)}
    (h : List.Forall₂ R as lists) (has : as.Nodup) (hlist : ∀ a ∈ as, ∀ list, R a list → list.Nodup)
    (hdisjoint : ∀ a ∈ as, ∀ a' ∈ as, ∀ list list' x, R a list → R a' list' → x ∈ list →
      x ∈ list' → a = a') : lists.flatten.Nodup := by
  induction h with
  | nil => exact List.nodup_nil
  | cons hab hrest ih =>
      obtain ⟨hnotMem, has⟩ := List.nodup_cons.mp has
      rw [List.flatten_cons, List.nodup_append']
      refine ⟨hlist _ List.mem_cons_self _ hab, ih has ?_ ?_, ?_⟩
      · exact fun a ha => hlist a (List.mem_cons_of_mem _ ha)
      · exact fun a ha a' ha' => hdisjoint a (List.mem_cons_of_mem _ ha) a'
          (List.mem_cons_of_mem _ ha')
      · intro x hx hxrest
        obtain ⟨list', hlist', hx'⟩ := List.mem_flatten.mp hxrest
        obtain ⟨a', ha', hR'⟩ := exists_left_of_mem hrest hlist'
        have hsame := hdisjoint _ List.mem_cons_self a' (List.mem_cons_of_mem _ ha') _ _ x hab hR'
          hx hx'
        exact hnotMem (hsame ▸ ha')

end Related

theorem foldTree_eq_of_preorder {combine : α → List β → β} (value : List α → β)
    (hcombine : ∀ a (below : List (List α)),
      combine a (below.map value) = value (a :: below.flatten))
    (h : preorder children n a = some xs) :
    foldTree children combine n a = some (value xs) := by
  induction n generalizing a xs with
  | zero => cases h
  | succ n ih =>
      obtain ⟨below, hbelow, rfl⟩ := Option.map_eq_some_iff.mp h
      have hvalues : (children a).mapM (foldTree children combine n) =
          some (below.map value) := by
        rw [mapM_eq_some_iff] at hbelow ⊢
        exact List.forall₂_map_right_iff.mpr (hbelow.imp fun _ _ => ih)
      rw [foldTree, hvalues, Option.map_some, hcombine]

/-! ## Climbing -/

theorem climb_add (m n : ℕ) (a : α) :
    climb above (m + n) a = (climb above m a).bind (climb above n) := by
  induction n with
  | zero =>
      change climb above m a = (climb above m a).bind fun b => some b
      cases climb above m a <;> rfl
  | succ n ih =>
      change (climb above (m + n) a).bind above = _
      rw [ih, Option.bind_assoc]
      rfl

theorem climb_injective (hroot : above root = none) (hk : climb above k a = some root)
    (hl : climb above l a = some root) : k = l := by
  have hnever : ∀ {i j}, climb above i a = some root → climb above (i + (j + 1)) a = none := by
    intro i j hi
    rw [climb_add, hi, Nat.add_comm j 1, Option.bind_some, climb_add]
    change ((some root).bind above).bind (climb above j) = none
    rw [Option.bind_some, hroot]
    rfl
  rcases Nat.lt_trichotomy k l with hlt | heq | hlt
  · obtain ⟨j, rfl⟩ := Nat.exists_eq_add_of_lt hlt
    rw [Nat.add_assoc, hnever hk] at hl
    cases hl
  · exact heq
  · obtain ⟨j, rfl⟩ := Nat.exists_eq_add_of_lt hlt
    rw [Nat.add_assoc, hnever hl] at hk
    cases hk

/-- A node below a root is less deep than there are nodes. -/
theorem depth_lt (hroot : above root = none) (hmem : root ∈ nodes)
    (habove : ∀ a b, above a = some b → a ∈ nodes) (hk : climb above k a = some root) :
    k < nodes.length := by
  have hstep : ∀ i ≤ k, ∃ b, climb above i a = some b ∧ climb above (k - i) b = some root := by
    intro i hi
    have hsplit : climb above (i + (k - i)) a = (climb above i a).bind (climb above (k - i)) :=
      climb_add i (k - i) a
    rw [Nat.add_sub_cancel' hi, hk] at hsplit
    exact Option.bind_eq_some_iff.mp hsplit.symm
  have hway : ((List.range (k + 1)).map fun i => (climb above i a).getD a).Nodup := by
    refine List.Nodup.map_on (fun i hi j hj hij => ?_) List.nodup_range
    have hik : i ≤ k := Nat.le_of_lt_succ (List.mem_range.mp hi)
    have hjk : j ≤ k := Nat.le_of_lt_succ (List.mem_range.mp hj)
    obtain ⟨b, hb, hbroot⟩ := hstep i hik
    obtain ⟨c, hc, hcroot⟩ := hstep j hjk
    rw [hb, hc, Option.getD_some, Option.getD_some] at hij
    have hsame := climb_injective hroot hbroot (hij ▸ hcroot)
    omega
  have hnodes : ((List.range (k + 1)).map fun i => (climb above i a).getD a) ⊆ nodes := by
    intro b hb
    obtain ⟨i, hi, rfl⟩ := List.mem_map.mp hb
    have hik : i ≤ k := Nat.le_of_lt_succ (List.mem_range.mp hi)
    obtain ⟨b, hb, hbroot⟩ := hstep i hik
    rw [hb, Option.getD_some]
    cases hlast : k - i with
    | zero =>
        rw [hlast] at hbroot
        obtain rfl := Option.some.inj hbroot
        exact hmem
    | succ j =>
        rw [hlast, Nat.add_comm, climb_add] at hbroot
        obtain ⟨c, hc, -⟩ := Option.bind_eq_some_iff.mp hbroot
        exact habove b c hc
  have hlength := (List.subperm_of_subset hway hnodes).length_le
  rw [List.length_map, List.length_range] at hlength
  exact hlength

/-! ## The recursion over children -/

section Preorder

variable (hchildren : ∀ a b, b ∈ children a ↔ above b = some a)

include hchildren

theorem exists_preorder (hroot : above root = none) (hmem : root ∈ nodes)
    (habove : ∀ a b, above a = some b → a ∈ nodes) (hk : climb above k a = some root)
    (hn : nodes.length ≤ n + k) : ∃ xs, preorder children n a = some xs := by
  induction n generalizing a k with
  | zero =>
      have hdepth := depth_lt hroot hmem habove hk
      omega
  | succ n ih =>
      have hbelow : ∀ b ∈ children a, ∃ xs, preorder children n b = some xs := by
        intro b hb
        refine ih (k := k + 1) ?_ (by omega)
        rw [Nat.add_comm, climb_add]
        change ((some b).bind above).bind (climb above k) = some root
        rw [Option.bind_some, (hchildren a b).mp hb, Option.bind_some, hk]
      obtain ⟨below, hmapM⟩ := exists_mapM hbelow
      exact ⟨a :: below.flatten, by rw [preorder, hmapM]; rfl⟩

theorem mem_preorder_iff (h : preorder children n a = some xs) :
    x ∈ xs ↔ ∃ k, climb above k x = some a := by
  induction n generalizing a xs with
  | zero => cases h
  | succ n ih =>
      obtain ⟨below, hbelow, rfl⟩ := Option.map_eq_some_iff.mp h
      have hforall := mapM_eq_some_iff.mp hbelow
      rw [List.mem_cons, List.mem_flatten]
      constructor
      · rintro (rfl | ⟨ys, hys, hx⟩)
        · exact ⟨0, rfl⟩
        · obtain ⟨b, hb, hvisit⟩ := exists_left_of_mem hforall hys
          obtain ⟨k, hk⟩ := (ih hvisit).mp hx
          refine ⟨k + 1, ?_⟩
          change (climb above k x).bind above = some a
          rw [hk, Option.bind_some]
          exact (hchildren a b).mp hb
      · rintro ⟨k, hk⟩
        cases k with
        | zero => exact .inl (Option.some.inj hk)
        | succ k =>
            obtain ⟨b, hb, habove⟩ := Option.bind_eq_some_iff.mp hk
            obtain ⟨ys, hys, hvisit⟩ := exists_right_of_mem hforall ((hchildren a b).mpr habove)
            exact .inr ⟨ys, hys, (ih hvisit).mpr ⟨k, hb⟩⟩

/-- The recursion visits no node twice. -/
theorem nodup_preorder (hroot : above root = none) (hnodup : ∀ a, (children a).Nodup)
    (hk : climb above k a = some root) (h : preorder children n a = some xs) : xs.Nodup := by
  induction n generalizing a k xs with
  | zero => cases h
  | succ n ih =>
      obtain ⟨below, hbelow, rfl⟩ := Option.map_eq_some_iff.mp h
      have hforall := mapM_eq_some_iff.mp hbelow
      -- a node below a child is as many steps from the root as the child says
      have hdepth : ∀ b ∈ children a, ∀ ys x, preorder children n b = some ys → x ∈ ys →
          ∃ l, climb above l x = some b ∧ climb above (l + (1 + k)) x = some root := by
        intro b hb ys x hvisit hx
        obtain ⟨l, hl⟩ := (mem_preorder_iff hchildren hvisit).mp hx
        refine ⟨l, hl, ?_⟩
        rw [climb_add, hl, Option.bind_some, climb_add]
        change ((some b).bind above).bind (climb above k) = some root
        rw [Option.bind_some, (hchildren a b).mp hb, Option.bind_some, hk]
      rw [List.nodup_cons]
      constructor
      · intro ha
        obtain ⟨ys, hys, hx⟩ := List.mem_flatten.mp ha
        obtain ⟨b, hb, hvisit⟩ := exists_left_of_mem hforall hys
        obtain ⟨l, -, hl⟩ := hdepth b hb ys a hvisit hx
        have hsame := climb_injective hroot hk hl
        omega
      · refine nodup_flatten_of_forall₂ hforall (hnodup a) ?_ ?_
        · intro b hb ys hvisit
          refine ih (k := 1 + k) ?_ hvisit
          rw [climb_add]
          change ((some b).bind above).bind (climb above k) = some root
          rw [Option.bind_some, (hchildren a b).mp hb, Option.bind_some, hk]
        · intro b hb c hc ys zs x hys hzs hx hx'
          obtain ⟨l, hl, hlroot⟩ := hdepth b hb ys x hys hx
          obtain ⟨m, hm, hmroot⟩ := hdepth c hc zs x hzs hx'
          have hsame := climb_injective hroot hlroot hmroot
          obtain rfl : l = m := by omega
          exact Option.some.inj (hl.symm.trans hm)

end Preorder

end FancyMumble.Lib.Forests
