import Mathlib.Algebra.Order.BigOperators.Ring.Finset
import Mathlib.Data.Fintype.BigOperators
import Mathlib.Logic.Equiv.Fintype

/-!
# Separated values

Values that depend on parameters are separated if, with all parameters but one fixed, they
agree for at most one value of that parameter. Some assignment of the parameters then makes
all of finitely many values different, as long as there are enough values to choose from;
and a permutation can be found that takes given values to other given ones.
-/

namespace FancyMumble.Lib.Separation

variable {ι α β κ : Type*}

/-! ## Permutations with given values -/

/-- Different inputs can be taken to different outputs by a permutation. -/
theorem exists_perm_of_pairwise [Finite β] {pairs : List (β × β)}
    (h : pairs.Pairwise fun pair pair' => pair.1 ≠ pair'.1 ∧ pair.2 ≠ pair'.2) :
    ∃ σ : Equiv.Perm β, ∀ pair ∈ pairs, σ pair.1 = pair.2 := by
  classical
  have := Fintype.ofFinite β
  let input : Fin pairs.length → β := fun i => (pairs.get i).1
  let output : Fin pairs.length → β := fun i => (pairs.get i).2
  have hpairs := List.pairwise_iff_get.mp h
  have hinput : Function.Injective input := by
    intro i j heq
    rcases lt_trichotomy i j with hlt | hsame | hgt
    · exact absurd heq (hpairs i j hlt).1
    · exact hsame
    · exact absurd heq.symm (hpairs j i hgt).1
  have houtput : Function.Injective output := by
    intro i j heq
    rcases lt_trichotomy i j with hlt | hsame | hgt
    · exact absurd heq (hpairs i j hlt).2
    · exact hsame
    · exact absurd heq.symm (hpairs j i hgt).2
  let ranges : Set.range input ≃ Set.range output :=
    (Equiv.ofInjective input hinput).symm.trans (Equiv.ofInjective output houtput)
  refine ⟨ranges.extendSubtype, fun pair hpair => ?_⟩
  obtain ⟨i, rfl⟩ := List.get_of_mem hpair
  have hvalue : ranges ⟨input i, i, rfl⟩ = ⟨output i, i, rfl⟩ := by
    have hindex : (Equiv.ofInjective input hinput).symm ⟨input i, i, rfl⟩ = i :=
      (Equiv.ofInjective input hinput).symm_apply_eq.mpr rfl
    simp only [ranges, Equiv.trans_apply, hindex]
    rfl
  rw [ranges.extendSubtype_apply_of_mem _ ⟨i, rfl⟩, hvalue]

/-! ## Assignments that tell values apart -/

section Separated

variable [DecidableEq ι]

/-- With all other parameters fixed, the two agree for at most one value of the parameter. -/
def SeparatedBy (p : ι) (F G : (ι → α) → β) : Prop :=
  ∀ v a a', F (Function.update v p a) = G (Function.update v p a) →
    F (Function.update v p a') = G (Function.update v p a') → a = a'

def Separated (F G : (ι → α) → β) : Prop := ∃ p, SeparatedBy p F G

theorem SeparatedBy.symm {p : ι} {F G : (ι → α) → β} (h : SeparatedBy p F G) :
    SeparatedBy p G F :=
  fun v a a' ha ha' => h v a a' ha.symm ha'.symm

theorem Separated.symm {F G : (ι → α) → β} (h : Separated F G) : Separated G F :=
  let ⟨p, hp⟩ := h
  ⟨p, hp.symm⟩

theorem separated_of_ne [Nonempty ι] {F G : (ι → α) → β} (h : ∀ v, F v ≠ G v) :
    Separated F G :=
  ⟨Classical.arbitrary ι, fun v a _ ha => absurd ha (h (Function.update v _ a))⟩

variable [Fintype ι] [DecidableEq β] {S : ι → Finset α}

/-- The assignments for which separated values agree are few. -/
theorem card_agree_mul_le {p : ι} {F G : (ι → α) → β}
    (h : SeparatedBy p F G) :
    ((Fintype.piFinset S).filter fun v => F v = G v).card * (S p).card ≤
      (Fintype.piFinset S).card := by
  rw [← Finset.card_product]
  refine Finset.card_le_card_of_injOn (fun pair => Function.update pair.1 p pair.2) ?_ ?_
  · rintro ⟨v, a⟩ hpair
    simp only [Finset.coe_product, Set.mem_prod, Finset.mem_coe, Finset.mem_filter,
      Fintype.mem_piFinset] at hpair ⊢
    intro q
    by_cases hq : q = p
    · subst hq
      rw [Function.update_self]
      exact hpair.2
    · rw [Function.update_of_ne hq]
      exact hpair.1.1 q
  · rintro ⟨v, a⟩ hv ⟨v', a'⟩ hv' heq
    simp only [Finset.coe_product, Set.mem_prod, Finset.mem_coe, Finset.mem_filter] at hv hv'
    dsimp only at heq
    have ha : a = a' := by
      have hp := congrFun heq p
      rwa [Function.update_self, Function.update_self] at hp
    have hv'_eq : v' = Function.update v p (v' p) := by
      funext q
      by_cases hq : q = p
      · subst hq
        rw [Function.update_self]
      · have hother := congrFun heq q
        rw [Function.update_of_ne hq, Function.update_of_ne hq] at hother
        rw [Function.update_of_ne hq, hother]
    have hp : v p = v' p := by
      refine h v (v p) (v' p) ?_ ?_
      · rw [Function.update_eq_self]
        exact hv.1.2
      · rw [← hv'_eq]
        exact hv'.1.2
    have hsame : v' = v := by rw [hv'_eq, ← hp, Function.update_eq_self]
    rw [ha, hsame]

/-- Finitely many pairs of separated values differ for some assignment, if every parameter can
take more values than there are pairs. -/
theorem exists_separating (conds : Finset κ) (F G : κ → (ι → α) → β)
    (hsep : ∀ k ∈ conds, Separated (F k) (G k)) (hcard : ∀ p, conds.card < (S p).card) :
    ∃ v ∈ Fintype.piFinset S, ∀ k ∈ conds, F k v ≠ G k v := by
  classical
  by_contra hnone
  simp only [not_exists, not_and, not_forall, not_not, exists_prop] at hnone
  let agree : κ → Finset (ι → α) := fun k =>
    (Fintype.piFinset S).filter fun v => F k v = G k v
  have hcover : Fintype.piFinset S ⊆ conds.biUnion agree := by
    intro v hv
    obtain ⟨k, hk, hagree⟩ := hnone v hv
    exact Finset.mem_biUnion.mpr ⟨k, hk, Finset.mem_filter.mpr ⟨hv, hagree⟩⟩
  have hfew : ∀ k ∈ conds,
      (agree k).card * (conds.card + 1) ≤ (Fintype.piFinset S).card := by
    intro k hk
    obtain ⟨p, hp⟩ := hsep k hk
    exact (Nat.mul_le_mul_left _ (hcard p)).trans (card_agree_mul_le hp)
  have hpos : 0 < (Fintype.piFinset S).card := by
    rw [Fintype.card_piFinset]
    exact Finset.prod_pos fun p _ => (Nat.zero_le _).trans_lt (hcard p)
  have htotal : (Fintype.piFinset S).card * (conds.card + 1) ≤
      conds.card * (Fintype.piFinset S).card :=
    calc
      (Fintype.piFinset S).card * (conds.card + 1) ≤
          (∑ k ∈ conds, (agree k).card) * (conds.card + 1) :=
        Nat.mul_le_mul_right _ ((Finset.card_le_card hcover).trans Finset.card_biUnion_le)
      _ = ∑ k ∈ conds, (agree k).card * (conds.card + 1) := Finset.sum_mul _ _ _
      _ ≤ ∑ _k ∈ conds, (Fintype.piFinset S).card := Finset.sum_le_sum hfew
      _ = conds.card * (Fintype.piFinset S).card := Finset.sum_const_nat fun _ _ => rfl
  have hexpand := Nat.mul_add_one (Fintype.piFinset S).card conds.card
  have hcomm := Nat.mul_comm conds.card (Fintype.piFinset S).card
  omega

/-- Entries with separated inputs and separated outputs are all taken from input to output by one
permutation, for some assignment. -/
theorem exists_assignment_perm [Finite β] {entries : List (((ι → α) → β) × ((ι → α) → β))}
    (hsep : entries.Pairwise fun e e' => Separated e.1 e'.1 ∧ Separated e.2 e'.2)
    (hcard : ∀ p, 2 * (entries.length * entries.length) < (S p).card) :
    ∃ v ∈ Fintype.piFinset S, ∃ σ : Equiv.Perm β, ∀ e ∈ entries, σ (e.1 v) = e.2 v := by
  classical
  let conds : Finset (Bool × Fin entries.length × Fin entries.length) :=
    Finset.univ.filter fun k => k.2.1 < k.2.2
  let side : Bool → ((ι → α) → β) × ((ι → α) → β) → (ι → α) → β :=
    fun isInput e => if isInput then e.1 else e.2
  have hpairs := List.pairwise_iff_get.mp hsep
  have hseparated : ∀ k ∈ conds, Separated (side k.1 (entries.get k.2.1))
      (side k.1 (entries.get k.2.2)) := by
    rintro ⟨isInput, i, j⟩ hk
    have hlt : i < j := (Finset.mem_filter.mp hk).2
    cases isInput with
    | true => exact (hpairs i j hlt).1
    | false => exact (hpairs i j hlt).2
  have hconds : conds.card ≤ 2 * (entries.length * entries.length) := by
    refine (Finset.card_filter_le _ _).trans ?_
    simp
  obtain ⟨v, hv, hne⟩ := exists_separating conds
    (fun k => side k.1 (entries.get k.2.1)) (fun k => side k.1 (entries.get k.2.2)) hseparated
    (fun p => hconds.trans_lt (hcard p))
  have hvalues : (entries.map fun e => (e.1 v, e.2 v)).Pairwise fun pair pair' =>
      pair.1 ≠ pair'.1 ∧ pair.2 ≠ pair'.2 := by
    rw [List.pairwise_map, List.pairwise_iff_get]
    intro i j hlt
    exact ⟨hne (true, i, j) (Finset.mem_filter.mpr ⟨Finset.mem_univ _, hlt⟩),
      hne (false, i, j) (Finset.mem_filter.mpr ⟨Finset.mem_univ _, hlt⟩)⟩
  obtain ⟨σ, hσ⟩ := exists_perm_of_pairwise hvalues
  exact ⟨v, hv, σ, fun e he => hσ _ (List.mem_map_of_mem he)⟩

end Separated

end FancyMumble.Lib.Separation
