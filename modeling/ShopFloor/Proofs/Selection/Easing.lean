import Mathlib
import ShopFloor.Proofs.Coverage.Easing
import ShopFloor.Proofs.Selection.Outcome

/-!
# Easier conditions for a choice

A variant that can run also can when profiles join the pool, when the window shrinks, when one cell
is enough instead of all, and when its requirements are dropped or ask for fewer holders. So easier
conditions of this kind keep a choice a choice, among at least as many feasible variants, and the
variant that is selected is in no higher place. It need not be the same one. Main statements:
`canRun_of_easier`, `easing_keeps_selection`.
-/

namespace ShopFloor

/-- A window inside another one, which may share its bounds. -/
structure Window.Within (inner outer : Window) : Prop where
  /-- The inner window starts no earlier. -/
  start : outer.start ≤ inner.start
  /-- The inner window stops no later. -/
  stop : inner.stop ≤ outer.stop

/-- Who counts in a window counts in each window inside it. -/
theorem Window.Within.counts {inner outer : Window} (h : inner.Within outer) {p : Profile}
    (hcounts : p.Counts outer) : p.Counts inner := by
  refine ⟨hcounts.1, fun away haway => ?_⟩
  have hstart := h.start
  have hstop := h.stop
  have hclear := hcounts.2 away haway
  omega

/-- A mode that asks for no more cells than another: the same one, or that for one listed cell. -/
def CellMatch.AtMost (eased mode : CellMatch) : Prop := eased = mode ∨ eased = .anyListed

/-- A variant that needs no more than another one: the same cells, and of the requirements only
some, none of them with more holders. -/
structure Variant.AtMost (eased v : Variant) : Prop where
  /-- The cells are the same. -/
  cells : eased.cells = v.cells
  /-- Requirements are dropped or ask for fewer holders. -/
  requirements : List.SublistForall₂ Requirement.AtMost eased.requirements v.requirements

/-- A variant needs no more than itself. -/
theorem Variant.AtMost.refl (v : Variant) : v.AtMost v :=
  ⟨rfl, List.sublistForall₂_iff.mpr
    ⟨v.requirements, List.forall₂_same.mpr fun _ _ => ⟨rfl, rfl, Nat.le_refl _⟩, .refl _⟩⟩

namespace Choice

section Easier

variable {pool pool' : List Profile} {w w' : Window} (hsubset : ∀ p ∈ pool, p ∈ pool')
  (hwithin : w'.Within w)
include hsubset hwithin

/-- An available operator of a pool is one of a larger pool during a window inside. -/
theorem operatorsDuring_subset : ∀ p ∈ operatorsDuring pool w, p ∈ operatorsDuring pool' w' := by
  intro p hp
  rw [operatorsDuring_eq_filter, List.mem_filter, decide_eq_true_eq] at hp ⊢
  obtain ⟨hmem, hkind, hcounts⟩ := hp
  exact ⟨hsubset p hmem, hkind, hwithin.counts hcounts⟩

/-- A cell that is served stays served under easier conditions. -/
theorem served_of_easier {cell : String} (h : Served pool w cell) : Served pool' w' cell := by
  obtain ⟨p, hmem, hcounts, hserves⟩ := h
  exact ⟨p, hsubset p hmem, hwithin.counts hcounts, hserves⟩

/-- Cells that are served as a mode asks are served under easier conditions. -/
theorem cellsServed_of_easier {v eased : Variant} (hcells : eased.cells = v.cells)
    {mode mode' : CellMatch} (hmode : mode'.AtMost mode)
    (h : v.CellsServed pool w mode) : eased.CellsServed pool' w' mode' := by
  cases mode with
  | allListed =>
    refine Variant.cellsServed_of_all (fun cell hcell => ?_) mode'
    rw [hcells] at hcell
    exact served_of_easier hsubset hwithin (h cell hcell)
  | anyListed =>
    obtain rfl : mode' = .anyListed := hmode.elim id id
    rw [Variant.CellsServed, hcells]
    refine h.imp_right ?_
    rintro ⟨cell, hcell, hserved⟩
    exact ⟨cell, hcell, served_of_easier hsubset hwithin hserved⟩

variable (hpool : (pool.map (·.id)).Nodup) (hpool' : (pool'.map (·.id)).Nodup)
include hpool hpool'

/-- A variant that can run can run under easier conditions. -/
theorem canRun_of_easier {v eased : Variant} (heased : eased.AtMost v) {mode mode' : CellMatch}
    (hmode : mode'.AtMost mode) (h : canRun pool w mode v = true) :
    canRun pool' w' mode' eased = true := by
  obtain ⟨coverage, hcheck⟩ := isOk_iff.mp h
  obtain ⟨hcells, hcover⟩ := Variant.feasibility_eq_ok_iff.mp hcheck
  have hcells' := cellsServed_of_easier hsubset hwithin heased.cells hmode hcells
  obtain ⟨coverage', hcover'⟩ := Coverage.ofPool_eased (nodup_ids_operatorsDuring hpool w)
    (nodup_ids_operatorsDuring hpool' w') (operatorsDuring_subset hsubset hwithin)
    heased.requirements hcover
  exact isOk_iff.mpr ⟨coverage', Variant.feasibility_eq_ok_iff.mpr ⟨hcells', hcover'⟩⟩

/-- The variants that can run can run under easier conditions. -/
theorem filter_canRun_sublist (variants : List Variant) (mode : CellMatch) :
    (variants.filter (canRun pool w mode)).Sublist (variants.filter (canRun pool' w' mode)) :=
  List.monotone_filter_right variants fun v hv =>
    canRun_of_easier hsubset hwithin hpool hpool' (Variant.AtMost.refl v) (.inl rfl) hv

end Easier

/-- Conditions are easier with more profiles in the pool, all ids different, and with a window
inside the old one. A variant that can run can then also run for one listed cell instead of all, and
with requirements that are dropped or ask for fewer holders. A choice by criteria, those in common
use or a chain of the caller's, stays a choice, with no fewer feasible variants and with a variant
that the policy does not rank behind the old one. -/
theorem easing_keeps_selection {pool pool' : List Profile} {w w' : Window}
    (hpool : (pool.map (·.id)).Nodup) (hpool' : (pool'.map (·.id)).Nodup)
    (hsubset : ∀ p ∈ pool, p ∈ pool') (hwithin : w'.Within w) :
    (∀ v eased mode mode', eased.AtMost v → mode'.AtMost mode →
      canRun pool w mode v = true → canRun pool' w' mode' eased = true) ∧
    (∀ (criteria : Option (List Criterion)) variants options v count coverage,
      among (criteria.map Policy.ofCriteria) variants pool w options =
          .ok (.selected v count coverage) →
        ∃ v' count' coverage', among (criteria.map Policy.ofCriteria) variants pool' w' options =
            .ok (.selected v' count' coverage') ∧ count ≤ count' ∧
          ((criteria.map Policy.ofCriteria).getD (.standard options.fastest)).compare v' v ≠
            .gt) := by
  refine ⟨fun v eased mode mode' heased hmode =>
    canRun_of_easier hsubset hwithin hpool hpool' heased hmode, ?_⟩
  intro criteria variants options v count coverage h
  obtain ⟨hbest, hcount, -⟩ := among_eq_selected_iff.mp h
  have hsub := filter_canRun_sublist hsubset hwithin hpool hpool' variants options.cellMatch
  have hv := hsub.subset (Policy.mem_of_firstLeast hbest)
  obtain ⟨v', count', coverage', h'⟩ :=
    exists_among_eq_selected_iff.mpr (List.ne_nil_of_mem hv)
  obtain ⟨hbest', hcount', -⟩ := among_eq_selected_iff.mp h'
  refine ⟨v', count', coverage', h', ?_, ?_⟩
  · rw [hcount, hcount']
    exact hsub.length_le
  · rw [policy_of_criteria, Policy.best?_ofCriteria] at hbest'
    rw [policy_of_criteria, ne_eq, (Policy.compares_ofCriteria _ v' v).eq_gt, not_lt]
    exact List.le_of_mem_argmin hv hbest'

/-- A weld that needs no welder at all. -/
def unmannedWeld : Variant := { soloWeld with requirements := [] }

/-- With a second welder and an earlier end, the faster weld by two is selected instead of the one
by one; a weld without welders could then run as well. -/
theorem easing_keeps_selection_weld :
    let early : Window := ⟨21600000, 36000000, by decide, by decide, by decide⟩
    let answer (pool : List Profile) (w : Window) :=
      among none [soloWeld, duoWeld] pool w ⟨true, .allListed⟩
    answer [welder "ann" .expert, Profile.ofKind .cell "bench"] shift =
        .ok (.selected soloWeld 1 ⟨[⟨.single "welding" .basic, ["ann"]⟩]⟩) ∧
      answer weldShop early =
        .ok (.selected duoWeld 2 ⟨[⟨⟨"welding", .basic, 2, by decide⟩, ["ann", "bo"]⟩]⟩) ∧
      (Policy.standard true).compare duoWeld soloWeld ≠ .gt ∧
      canRun weldShop early .anyListed unmannedWeld = true := by
  intro early answer
  have hbefore : among none [soloWeld, duoWeld]
      [welder "ann" .expert, Profile.ofKind .cell "bench"] shift ⟨true, .allListed⟩ =
        .ok (.selected soloWeld 1 ⟨[⟨.single "welding" .basic, ["ann"]⟩]⟩) := by cbv
  have hafter : among none [soloWeld, duoWeld] weldShop
      ⟨21600000, 36000000, by decide, by decide, by decide⟩ ⟨true, .allListed⟩ =
        .ok (.selected duoWeld 2 ⟨[⟨⟨"welding", .basic, 2, by decide⟩, ["ann", "bo"]⟩]⟩) := by cbv
  have hsolo : canRun [welder "ann" .expert, Profile.ofKind .cell "bench"] shift .allListed
      soloWeld = true := by cbv
  have hsubset : ∀ p ∈ [welder "ann" .expert, Profile.ofKind .cell "bench"], p ∈ weldShop := by
    simp [weldShop]
  obtain ⟨hrun, hselected⟩ := easing_keeps_selection (by decide) (by decide) hsubset
    (show early.Within shift from ⟨by decide, by decide⟩)
  obtain ⟨v', count', coverage', hchoice, -, hrank⟩ :=
    hselected none [soloWeld, duoWeld] ⟨true, .allListed⟩ _ _ _ hbefore
  obtain ⟨rfl, -, -⟩ : v' = duoWeld ∧ count' = 2 ∧ _ := by
    simpa using hchoice.symm.trans hafter
  exact ⟨hbefore, hafter, hrank,
    hrun soloWeld unmannedWeld .allListed .anyListed ⟨rfl, .nil⟩ (.inr rfl) hsolo⟩

end Choice

end ShopFloor
