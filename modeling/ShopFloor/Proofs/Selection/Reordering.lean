import Mathlib
import ShopFloor.Proofs.Coverage.Pool
import ShopFloor.Proofs.Selection.Outcome

/-!
# A choice from reordered input

Where ids tell the variants apart and ids tell the profiles of the pool apart, neither the order of
the variants nor that of the pool has a say in a choice. The pool enters by whether some profile
serves a cell and by its operators, which are taken by id; the variants enter by the lowest place,
which at most one of them has. Only the rejections are listed in the order of the variants. Main
statements: `check_perm`, `among_perm_variants`, `among_perm`.
-/

namespace ShopFloor

namespace Policy

/-- Where variants have different ids, criteria prefer the one in the lowest place. -/
theorem best?_ofCriteria_eq_some_iff {criteria : List Criterion} {variants : List Variant}
    (hnodup : (variants.map (·.id)).Nodup) {v : Variant} :
    (ofCriteria criteria).best? variants = some v ↔
      v ∈ variants ∧ ∀ u ∈ variants, place criteria v ≤ place criteria u := by
  rw [best?_ofCriteria]
  constructor
  · intro hbest
    exact ⟨List.argmin_mem hbest, fun u hu => List.le_of_mem_argmin hu hbest⟩
  · rintro ⟨hv, hlowest⟩
    cases hbest : variants.argmin (place criteria) with
    | none => exact absurd (List.argmin_eq_none.mp hbest) (List.ne_nil_of_mem hv)
    | some u =>
      have hplace : place criteria u = place criteria v :=
        le_antisymm (List.le_of_mem_argmin hv hbest) (hlowest u (List.argmin_mem hbest))
      rw [List.inj_on_of_nodup_map hnodup (List.argmin_mem hbest) hv (id_eq_of_place_eq hplace)]

/-- The variant that criteria prefer does not depend on the order of variants with different ids. -/
theorem best?_ofCriteria_perm {criteria : List Criterion} {variants variants' : List Variant}
    (hperm : variants'.Perm variants) (hnodup : (variants.map (·.id)).Nodup) :
    (ofCriteria criteria).best? variants' = (ofCriteria criteria).best? variants := by
  have hnodup' : (variants'.map (·.id)).Nodup := (hperm.map _).nodup_iff.mpr hnodup
  refine Option.ext fun v => ?_
  rw [best?_ofCriteria_eq_some_iff hnodup, best?_ofCriteria_eq_some_iff hnodup']
  simp only [hperm.mem_iff]

end Policy

/-- Whether a cell is served does not depend on the order of the pool. -/
theorem Variant.cellServed_perm {pool pool' : List Profile} (hperm : pool'.Perm pool)
    (w : Window) : cellServed pool' w = cellServed pool w :=
  funext fun _ => hperm.any_eq

namespace Choice

/-- Answers that differ at most in the order of their rejections. -/
inductive Alike : Except Fault Choice → Except Fault Choice → Prop where
  /-- The same fault. -/
  | error (fault : Fault) : Alike (.error fault) (.error fault)
  /-- The same variant, out of as many, with the same coverage. -/
  | selected (v : Variant) (count : Nat) (coverage : Coverage) :
      Alike (.ok (.selected v count coverage)) (.ok (.selected v count coverage))
  /-- The same rejections, in any order. -/
  | infeasible {rejections rejections' : List Rejection} (hperm : rejections'.Perm rejections) :
      Alike (.ok (.infeasible rejections)) (.ok (.infeasible rejections'))

/-- The check of a variant does not depend on the order of a pool with different ids. -/
theorem check_perm {pool pool' : List Profile} (hperm : pool'.Perm pool)
    (hnodup : (pool.map (·.id)).Nodup) (w : Window) (mode : CellMatch) :
    check pool' w mode = check pool w mode := by
  have hoperators : (operatorsDuring pool' w).Perm (operatorsDuring pool w) := hperm.filter _
  have hids := nodup_ids_operatorsDuring hnodup w
  funext v
  have hcells : v.cellObstacle? pool' w mode = v.cellObstacle? pool w mode := by
    cases mode <;> simp only [Variant.cellObstacle?, Variant.cellServed_perm hperm]
  have hcover : Coverage.ofPool v.requirements (operatorsDuring pool' w) =
      Coverage.ofPool v.requirements (operatorsDuring pool w) := by
    rw [Coverage.ofPool, Coverage.ofPool, Coverage.byId_perm hids hoperators]
  rw [check, check, Variant.feasibility, Variant.feasibility, hcells, hcover]

/-- What a choice answers does not depend on the order of a pool with different ids. -/
theorem among_perm_pool {policy : Option Policy} {variants : List Variant}
    {pool pool' : List Profile} (hperm : pool'.Perm pool) (hnodup : (pool.map (·.id)).Nodup)
    (w : Window) (options : ChoiceOptions) :
    among policy variants pool' w options = among policy variants pool w options := by
  have hcheck : (fun v : Variant => v.feasibility pool' (operatorsDuring pool' w) w
      options.cellMatch) = fun v : Variant => v.feasibility pool (operatorsDuring pool w) w
      options.cellMatch := check_perm hperm hnodup w options.cellMatch
  simp only [among, hcheck]

/-- What a choice by criteria answers depends on the order of variants with different ids only as
far as rejections are listed in it. -/
theorem among_perm_variants (criteria : Option (List Criterion)) {variants variants' : List Variant}
    (hvariants : variants'.Perm variants) (hids : (variants.map (·.id)).Nodup) (pool : List Profile)
    (w : Window) (options : ChoiceOptions) :
    Alike (among (criteria.map Policy.ofCriteria) variants pool w options)
      (among (criteria.map Policy.ofCriteria) variants' pool w options) := by
  have hfeasible : (variants'.filter (canRun pool w options.cellMatch)).Perm
      (variants.filter (canRun pool w options.cellMatch)) := hvariants.filter _
  have hfeasibleIds : ((variants.filter (canRun pool w options.cellMatch)).map (·.id)).Nodup :=
    hids.sublist (List.filter_sublist.map _)
  cases hanswer : among (criteria.map Policy.ofCriteria) variants pool w options with
  | error fault =>
    obtain ⟨rfl, rfl⟩ := among_eq_error_iff.mp hanswer
    rw [among_eq_error_iff.mpr ⟨hvariants.eq_nil, rfl⟩]
    exact .error .noVariants
  | ok choice =>
    cases choice with
    | selected v count coverage =>
      obtain ⟨hbest, hcount, hcheck⟩ := among_eq_selected_iff.mp hanswer
      rw [policy_of_criteria, ← Policy.best?_ofCriteria_perm hfeasible hfeasibleIds,
        ← policy_of_criteria] at hbest
      rw [← hfeasible.length_eq] at hcount
      rw [among_eq_selected_iff.mpr ⟨hbest, hcount, hcheck⟩]
      exact .selected v count coverage
    | infeasible rejections =>
      obtain ⟨hne, hall⟩ := among_eq_infeasible_iff.mp hanswer
      obtain ⟨hnone, hrejections⟩ := forall₂_rejection_iff.mp hall
      have hrejected : (rejectionsOf (check pool w options.cellMatch) variants').Perm rejections :=
        hrejections ▸ hvariants.filterMap _
      have hnone' : feasibleOf (check pool w options.cellMatch) variants' = [] :=
        List.perm_nil.mp (hnone ▸ hvariants.filterMap _)
      have hne' : variants' ≠ [] := fun heq => hne (heq ▸ hvariants).symm.eq_nil
      rw [among_eq_infeasible_iff.mpr ⟨hne', forall₂_rejection_iff.mpr ⟨hnone', rfl⟩⟩]
      exact .infeasible hrejected

/-- Variants and a pool with different ids lead to the same choice in every order, under the
standard policy and under every chain of criteria: to the same fault, to the same variant out of as
many feasible ones with the same coverage, or to the same rejections up to their order. -/
theorem among_perm (criteria : Option (List Criterion)) {variants variants' : List Variant}
    {pool pool' : List Profile} (hvariants : variants'.Perm variants) (hpool : pool'.Perm pool)
    (hids : (variants.map (·.id)).Nodup) (hprofiles : (pool.map (·.id)).Nodup) (w : Window)
    (options : ChoiceOptions) :
    Alike (among (criteria.map Policy.ofCriteria) variants pool w options)
      (among (criteria.map Policy.ofCriteria) variants' pool' w options) := by
  rw [among_perm_pool hpool hprofiles]
  exact among_perm_variants criteria hvariants hids pool w options

/-- Two welds and a weld shop in two orders: the preferred weld is selected out of both. -/
theorem among_perm_weld :
    let answer (variants : List Variant) (pool : List Profile) :=
      among none variants pool shift ⟨false, .allListed⟩
    answer [soloWeld, duoWeld] weldShop =
        .ok (.selected soloWeld 2 ⟨[⟨.single "welding" .basic, ["ann"]⟩]⟩) ∧
      Alike (answer [soloWeld, duoWeld] weldShop)
        (answer [duoWeld, soloWeld] weldShop.reverse) := by
  intro answer
  have hanswer : among none [soloWeld, duoWeld] weldShop shift ⟨false, .allListed⟩ =
      .ok (.selected soloWeld 2 ⟨[⟨.single "welding" .basic, ["ann"]⟩]⟩) := by cbv
  exact ⟨hanswer, among_perm none (List.Perm.swap _ _ _) (List.reverse_perm _) (by decide)
    (by decide) shift ⟨false, .allListed⟩⟩

end Choice

end ShopFloor
