import Mathlib.Data.List.Infix

/-!
# Scanning a text for matches

A text is read from its front. Where a rule matches, the match is taken and the scan goes on behind
it; elsewhere one element is passed over. This is how a regular expression with the flag `g` is
applied.
-/

namespace FancyMumble.Lib.Scanning

variable {α β : Type*}

abbrev Rule (α β : Type*) := Option α → List α → Option (β × ℕ)

def scan (rule : Rule α β) : Option α → List α → List (α ⊕ β)
  | _, [] => []
  | before, a :: text =>
      match rule before (a :: text) with
      | none => .inl a :: scan rule (some a) text
      | some (m, n) =>
          .inr m :: scan rule (a :: text.take (n - 1)).getLast? (text.drop (n - 1))
termination_by _ text => text.length
decreasing_by
  · exact Nat.lt_succ_self _
  · rw [List.length_drop, List.length_cons]
    omega

def fill (out : ℕ → β → List α) : ℕ → List (α ⊕ β) → List α
  | _, [] => []
  | index, .inl a :: parts => a :: fill out index parts
  | index, .inr m :: parts => out index m ++ fill out (index + 1) parts

/-! ## Rules that look behind -/

section Behind

variable {rule : Rule α β} {before : Option α} {a : α} {m : β} {n : ℕ}
  {text front back rest : List α}

@[simp]
theorem scan_nil : scan rule before [] = [] := by
  rw [scan]

theorem scan_cons_of_none (h : rule before (a :: text) = none) :
    scan rule before (a :: text) = .inl a :: scan rule (some a) text := by
  rw [scan, h]

theorem scan_append_of_match (h : rule before (front ++ rest) = some (m, front.length))
    (hne : front ≠ []) :
    scan rule before (front ++ rest) = .inr m :: scan rule front.getLast? rest := by
  cases front with
  | nil => exact absurd rfl hne
  | cons a front =>
      rw [List.cons_append] at h ⊢
      rw [scan, h]
      dsimp only
      rw [List.length_cons, Nat.add_sub_cancel, List.take_left, List.drop_left]

theorem scan_append_of_none
    (h : ∀ before a rest, a :: rest <:+ front → rule before (a :: (rest ++ back)) = none) :
    ∃ between, scan rule before (front ++ back) = front.map .inl ++ scan rule between back := by
  induction front generalizing before with
  | nil => exact ⟨before, rfl⟩
  | cons a front ih =>
      have hrest : ∃ between, scan rule (some a) (front ++ back) =
          front.map .inl ++ scan rule between back :=
        ih fun before b rest hsuffix => h before b rest (hsuffix.trans (List.suffix_cons a front))
      obtain ⟨between, hscan⟩ := hrest
      refine ⟨between, ?_⟩
      rw [List.cons_append, scan_cons_of_none (h before a front List.suffix_rfl), hscan]
      rfl

end Behind

theorem mem_of_inl_mem_scan (rule : Rule α β) (before : Option α) (text : List α) {a : α}
    (h : .inl a ∈ scan rule before text) : a ∈ text := by
  induction hn : text.length using Nat.strong_induction_on generalizing before text with
  | _ n ih =>
      cases text with
      | nil =>
          rw [scan_nil] at h
          cases h
      | cons b text =>
          rw [scan] at h
          cases hrule : rule before (b :: text) with
          | none =>
              rw [hrule] at h
              rcases List.mem_cons.mp h with heq | h
              · exact Sum.inl.inj heq ▸ List.mem_cons_self
              · exact List.mem_cons_of_mem b
                  (ih text.length (hn ▸ Nat.lt_succ_self _) _ text h rfl)
          | some found =>
              rw [hrule] at h
              have hshort : (text.drop (found.2 - 1)).length < n := by
                rw [List.length_drop, ← hn, List.length_cons]
                omega
              have hrest := (List.mem_cons.mp h).resolve_left Sum.inl_ne_inr
              exact List.mem_cons_of_mem b
                (List.mem_of_mem_drop (ih _ hshort _ _ hrest rfl))

theorem exists_of_inr_mem_scan (rule : Rule α β) (before : Option α) (text : List α) {m : β}
    (h : .inr m ∈ scan rule before text) :
    ∃ before' rest n, rest <:+ text ∧ rule before' rest = some (m, n) := by
  induction hn : text.length using Nat.strong_induction_on generalizing before text with
  | _ n ih =>
      cases text with
      | nil =>
          rw [scan_nil] at h
          cases h
      | cons b text =>
          rw [scan] at h
          cases hrule : rule before (b :: text) with
          | none =>
              rw [hrule] at h
              have hrest := (List.mem_cons.mp h).resolve_left Sum.inr_ne_inl
              obtain ⟨before', rest, k, hsuffix, hfound⟩ :=
                ih text.length (hn ▸ Nat.lt_succ_self _) _ text hrest rfl
              exact ⟨before', rest, k, hsuffix.trans (List.suffix_cons b text), hfound⟩
          | some found =>
              rw [hrule] at h
              rcases List.mem_cons.mp h with heq | h
              · rw [Sum.inr.inj heq]
                exact ⟨before, b :: text, found.2, List.suffix_rfl, hrule⟩
              · have hshort : (text.drop (found.2 - 1)).length < n := by
                  rw [List.length_drop, ← hn, List.length_cons]
                  omega
                obtain ⟨before', rest, k, hsuffix, hfound⟩ := ih _ hshort _ _ h rfl
                have hdrop := (List.drop_suffix (found.2 - 1) text).trans (List.suffix_cons b text)
                exact ⟨before', rest, k, hsuffix.trans hdrop, hfound⟩

/-! ## Rules that do not -/

def find (r : List α → Option (β × ℕ)) (text : List α) : List (α ⊕ β) := scan (fun _ => r) none text

def replace (r : List α → Option (β × ℕ)) (out : β → List α) (text : List α) : List α :=
  (find r text).flatMap (Sum.elim (fun a => [a]) out)

def findAll (r : List α → Option (β × ℕ)) (text : List α) : List β :=
  (find r text).filterMap Sum.getRight?

section Free

variable {r : List α → Option (β × ℕ)} {out : β → List α} {a : α} {m : β}
  {text front back rest : List α}

theorem scan_before (r : List α → Option (β × ℕ)) (before : Option α) (text : List α) :
    scan (fun _ => r) before text = find r text := by
  unfold find
  cases text with
  | nil => rw [scan_nil, scan_nil]
  | cons a text => rw [scan, scan]

@[simp]
theorem find_nil : find r [] = [] := scan_nil

theorem find_cons_of_none (h : r (a :: text) = none) :
    find r (a :: text) = .inl a :: find r text := by
  conv_lhs => unfold find
  rw [scan_cons_of_none h, scan_before]

theorem find_append_of_match (h : r (front ++ rest) = some (m, front.length)) (hne : front ≠ []) :
    find r (front ++ rest) = .inr m :: find r rest := by
  conv_lhs => unfold find
  rw [scan_append_of_match h hne, scan_before]

theorem find_append_of_none
    (h : ∀ a rest, a :: rest <:+ front → r (a :: (rest ++ back)) = none) :
    find r (front ++ back) = front.map .inl ++ find r back := by
  have hfree : ∃ between, scan (fun _ => r) none (front ++ back) =
      front.map .inl ++ scan (fun _ => r) between back :=
    scan_append_of_none fun _ a rest hsuffix => h a rest hsuffix
  obtain ⟨between, hscan⟩ := hfree
  rw [find, hscan, scan_before]

theorem find_of_none (h : ∀ a ∈ text, ∀ rest, r (a :: rest) = none) :
    find r text = text.map .inl := by
  induction text with
  | nil => exact find_nil
  | cons a text ih =>
      rw [List.forall_mem_cons] at h
      rw [find_cons_of_none (h.1 text), ih h.2]
      rfl

structure StopsAt (r : List α → Option (β × ℕ)) (front back : List α) : Prop where
  append : ∀ a rest, a :: rest <:+ front → r (a :: (rest ++ back)) = r (a :: rest)
  length_le : ∀ a rest m n, a :: rest <:+ front → r (a :: rest) = some (m, n) →
    0 < n ∧ n ≤ (a :: rest).length

theorem find_append (h : StopsAt r front back) :
    find r (front ++ back) = find r front ++ find r back := by
  induction hn : front.length using Nat.strong_induction_on generalizing front with
  | _ n ih =>
      cases front with
      | nil =>
          rw [find_nil]
          rfl
      | cons a front =>
          have hat := h.append a front List.suffix_rfl
          cases hr : r (a :: front) with
          | none =>
              have hrest : StopsAt r front back :=
                ⟨fun b rest hb => h.append b rest (hb.trans (List.suffix_cons a front)),
                  fun b rest m n hb => h.length_le b rest m n (hb.trans (List.suffix_cons a front))⟩
              rw [List.cons_append, find_cons_of_none (hat.trans hr), find_cons_of_none hr,
                ih front.length (hn ▸ Nat.lt_succ_self _) hrest rfl]
              rfl
          | some match' =>
              obtain ⟨m, k⟩ := match'
              obtain ⟨hpos, hk⟩ := h.length_le a front m k List.suffix_rfl hr
              -- the front is the match and what is left of it
              have hsplit := (List.take_append_drop k (a :: front)).symm
              have hlen : ((a :: front).take k).length = k := List.length_take_of_le hk
              have hne : (a :: front).take k ≠ [] := by
                intro hnil
                rw [hnil] at hlen
                exact absurd hlen (Nat.ne_of_lt hpos)
              have hsub : (a :: front).drop k <:+ a :: front := List.drop_suffix k _
              have hrest : StopsAt r ((a :: front).drop k) back :=
                ⟨fun b rest hb => h.append b rest (hb.trans hsub),
                  fun b rest m n hb => h.length_le b rest m n (hb.trans hsub)⟩
              have hshort : ((a :: front).drop k).length < n := by
                rw [List.length_drop, ← hn]
                exact Nat.sub_lt_self hpos hk
              rw [← List.cons_append, hr, hsplit, List.append_assoc] at hat
              rw [hsplit] at hr
              rw [hsplit, List.append_assoc, find_append_of_match (by rw [hat, hlen]) hne,
                ih _ hshort hrest rfl, find_append_of_match (by rw [hr, hlen]) hne]
              rfl

/-! ## Replacing -/

theorem fill_flatMap (out : β → List α) (index : ℕ) (parts : List (α ⊕ β)) :
    fill (fun _ => out) index parts = parts.flatMap (Sum.elim (fun a => [a]) out) := by
  induction parts generalizing index with
  | nil => rfl
  | cons part parts ih =>
      cases part with
      | inl a => exact congrArg (a :: ·) (ih index)
      | inr m => exact congrArg (out m ++ ·) (ih (index + 1))

theorem fill_map_inl (out : ℕ → β → List α) (index : ℕ) (front : List α) (parts : List (α ⊕ β)) :
    fill out index (front.map .inl ++ parts) = front ++ fill out index parts := by
  induction front with
  | nil => rfl
  | cons a front ih => exact congrArg (a :: ·) ih

@[simp]
theorem replace_nil : replace r out [] = [] := by
  unfold replace
  rw [find_nil]
  rfl

theorem replace_cons_of_none (h : r (a :: text) = none) :
    replace r out (a :: text) = a :: replace r out text := by
  unfold replace
  rw [find_cons_of_none h]
  rfl

theorem replace_append_of_match (h : r (front ++ rest) = some (m, front.length))
    (hne : front ≠ []) : replace r out (front ++ rest) = out m ++ replace r out rest := by
  unfold replace
  rw [find_append_of_match h hne]
  rfl

theorem replace_of_find (h : find r (front ++ back) = front.map .inl ++ find r back) :
    replace r out (front ++ back) = front ++ replace r out back := by
  unfold replace
  rw [h, List.flatMap_append, List.flatMap_map]
  exact congrArg (· ++ _) (List.flatMap_singleton' front)

theorem replace_append_of_none
    (h : ∀ a rest, a :: rest <:+ front → r (a :: (rest ++ back)) = none) :
    replace r out (front ++ back) = front ++ replace r out back :=
  replace_of_find (find_append_of_none h)

theorem replace_append (h : StopsAt r front back) :
    replace r out (front ++ back) = replace r out front ++ replace r out back := by
  unfold replace
  rw [find_append h, List.flatMap_append]

theorem replace_of_find_eq (h : find r text = text.map .inl) : replace r out text = text := by
  unfold replace
  rw [h, List.flatMap_map]
  exact List.flatMap_singleton' text

/-! ## Finding all -/

@[simp]
theorem findAll_nil : findAll r [] = [] := by
  unfold findAll
  rw [find_nil]
  rfl

theorem findAll_cons_of_none (h : r (a :: text) = none) :
    findAll r (a :: text) = findAll r text := by
  unfold findAll
  rw [find_cons_of_none h]
  rfl

theorem findAll_append_of_match (h : r (front ++ rest) = some (m, front.length))
    (hne : front ≠ []) : findAll r (front ++ rest) = m :: findAll r rest := by
  unfold findAll
  rw [find_append_of_match h hne]
  rfl

theorem findAll_append_of_none
    (h : ∀ a rest, a :: rest <:+ front → r (a :: (rest ++ back)) = none) :
    findAll r (front ++ back) = findAll r back := by
  induction front with
  | nil => rfl
  | cons a front ih =>
      rw [List.cons_append, findAll_cons_of_none (h a front List.suffix_rfl)]
      exact ih fun b rest hsuffix => h b rest (hsuffix.trans (List.suffix_cons a front))

theorem findAll_of_find_eq (h : find r text = text.map .inl) : findAll r text = [] := by
  unfold findAll
  rw [h, List.filterMap_map]
  exact List.filterMap_eq_nil_iff.mpr fun _ _ => rfl

theorem exists_of_mem_findAll (h : m ∈ findAll r text) :
    ∃ rest n, rest <:+ text ∧ r rest = some (m, n) := by
  obtain ⟨part, hpart, hright⟩ := List.mem_filterMap.mp h
  obtain rfl := Sum.getRight?_eq_some_iff.mp hright
  obtain ⟨-, rest, n, hsuffix, hfound⟩ := exists_of_inr_mem_scan _ _ _ hpart
  exact ⟨rest, n, hsuffix, hfound⟩

theorem findAll_append (h : StopsAt r front back) :
    findAll r (front ++ back) = findAll r front ++ findAll r back := by
  unfold findAll
  rw [find_append h, List.filterMap_append]

end Free

end FancyMumble.Lib.Scanning
