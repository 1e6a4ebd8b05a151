import Mathlib
import ShopFloor.Integrity
import ShopFloor.Proofs.Selection.Easing

/-!
# Integrity of cells and choices

Whether a cell is known is asked of the pool once and for all; whether it is served is asked in a
window. Both come to the same in a window in which all cells and machines are available, so sound
input never fails for want of a cell there; and a variant with an unknown cell fails in every window
when all its cells must be served. Whether operators suffice is left out: no check of integrity
looks at them. Main statements: `unknownCell_mem_ofInput_iff`, `integrity_agrees_with_choice`.
-/

namespace ShopFloor

/-- Only cells and machines serve cells. -/
theorem Profile.kind_ne_operator_of_serves {p : Profile} {cell : String}
    (h : p.serves cell = true) : p.kind ≠ .operator := by
  rw [serves, Bool.and_eq_true, decide_eq_true_eq] at h
  exact h.1

/-- Profiles that serve the same cells by their declarations. Skills, absences, activity and limits
may differ. -/
structure Profile.SameCells (p q : Profile) : Prop where
  /-- The ids are the same. -/
  id : p.id = q.id
  /-- The kinds are the same. -/
  kind : p.kind = q.kind
  /-- The cells listed are the same. -/
  cells : p.cells = q.cells

/-- Profiles of the same cells serve the same cells. -/
theorem Profile.SameCells.serves {p q : Profile} (h : p.SameCells q) (cell : String) :
    p.serves cell = q.serves cell := by
  rw [Profile.serves, Profile.serves, h.id, h.kind, h.cells]

namespace Integrity

/-- What is reported on a condition is the one defect, and only on this condition. -/
theorem mem_reportIf {condition : Bool} {defect other : Defect} :
    other ∈ reportIf condition defect ↔ condition = true ∧ other = defect := by
  cases condition <;> simp [reportIf]

/-- A cell is known exactly when some profile of the pool serves it: to ask for the kind as well
makes no difference. -/
theorem isKnownCell_iff {pool : List Profile} {cell : String} :
    isKnownCell pool cell = true ↔ ∃ p ∈ pool, p.serves cell = true := by
  rw [isKnownCell, List.any_eq_true]
  refine exists_congr fun p => and_congr_right fun _ => ?_
  rw [Bool.and_eq_true, decide_eq_true_eq]
  exact and_iff_right_of_imp Profile.kind_ne_operator_of_serves

/-- The checks of a pool report no cells. -/
theorem unknownCell_not_mem_ofProfiles {id cell : String} (seen : List String)
    (pool : List Profile) : .unknownCell id cell ∉ ofProfiles seen pool := by
  induction pool generalizing seen with
  | nil => exact List.not_mem_nil
  | cons p rest ih =>
    simp only [ofProfiles, List.mem_append, mem_reportIf, reduceCtorEq, and_false, false_or]
    exact ih _

/-- The checks of single variants of a task report no cells. -/
theorem unknownCell_not_mem_ofVariants {id cell task : String} (seen : List String)
    (variants : List Variant) : .unknownCell id cell ∉ ofVariants task seen variants := by
  induction variants generalizing seen with
  | nil => exact List.not_mem_nil
  | cons v rest ih =>
    simp only [ofVariants, List.mem_append, mem_reportIf, reduceCtorEq, and_false, false_or]
    exact ih _

/-- The checks of a task report no cells. -/
theorem unknownCell_not_mem_ofTask {id cell task : String} (variants : List Variant) :
    .unknownCell id cell ∉ ofTask task variants := by
  simp only [ofTask, List.mem_append, mem_reportIf, reduceCtorEq, and_false, false_or, or_false]
  exact unknownCell_not_mem_ofVariants [] variants

/-- A cell is reported for an id exactly when a variant with this id lists the cell and no profile
of the pool serves it. -/
theorem unknownCell_mem_ofInput_iff {variants : List Variant} {pool : List Profile}
    {id cell : String} :
    .unknownCell id cell ∈ ofInput variants pool ↔
      (∃ v ∈ variants, v.id = id ∧ cell ∈ v.cells.names) ∧ ∀ p ∈ pool, p.serves cell = false := by
  have hunknown : isKnownCell pool cell = false ↔ ∀ p ∈ pool, p.serves cell = false := by
    simp only [← Bool.not_eq_true, isKnownCell_iff, not_exists, not_and]
  simp only [ofInput, ofPool, List.mem_append, List.mem_flatMap,
    unknownCell_not_mem_ofProfiles, unknownCell_not_mem_ofTask, and_false, exists_false, false_or]
  rw [← hunknown]
  constructor
  · rintro ⟨v, hv, hreport⟩
    obtain ⟨reported, hreported, heq⟩ := List.mem_map.mp hreport
    obtain ⟨rfl, rfl⟩ : v.id = id ∧ reported = cell := by simpa using heq
    obtain ⟨hcell, hnot⟩ := List.mem_filter.mp hreported
    exact ⟨⟨v, hv, rfl, hcell⟩, by simpa using hnot⟩
  · rintro ⟨⟨v, hv, rfl, hcell⟩, hnot⟩
    refine ⟨v, hv, List.mem_map_of_mem (List.mem_filter.mpr ⟨hcell, ?_⟩)⟩
    rw [hnot]
    rfl

/-- Of sound input, every cell of every variant is served by some profile. -/
theorem exists_serves_of_sound {variants : List Variant} {pool : List Profile}
    (h : ofInput variants pool = []) {v : Variant} (hv : v ∈ variants) {cell : String}
    (hcell : cell ∈ v.cells.names) : ∃ p ∈ pool, p.serves cell = true := by
  by_contra hnone
  have hreport : .unknownCell v.id cell ∈ ofInput variants pool :=
    unknownCell_mem_ofInput_iff.mpr ⟨⟨v, hv, rfl, hcell⟩, by simpa using hnone⟩
  rw [h] at hreport
  exact List.not_mem_nil hreport

/-- Cells that are all served by some profile raise no obstacle in a window in which all cells and
machines are available. -/
theorem cellObstacle?_of_served {v : Variant} {pool : List Profile} {w : Window}
    (hserved : ∀ cell ∈ v.cells.names, ∃ p ∈ pool, p.serves cell = true)
    (havailable : ∀ p ∈ pool, p.kind ≠ .operator → p.availableDuring w = true)
    (mode : CellMatch) : v.cellObstacle? pool w mode = none := by
  refine Variant.cellsServed_iff.mpr (Variant.cellsServed_of_all (fun cell hcell => ?_) mode)
  obtain ⟨p, hp, hserves⟩ := hserved cell hcell
  refine Variant.cellServed_iff.mp (List.any_eq_true.mpr ⟨p, hp, ?_⟩)
  rw [hserves, havailable p hp (Profile.kind_ne_operator_of_serves hserves)]
  rfl

/-- A variant that lists a cell which no profile serves fails for want of a cell in every window
when all its cells must be served. -/
theorem feasibility_of_unserved {v : Variant} {pool : List Profile} {cell : String}
    (hcell : cell ∈ v.cells.names) (hunserved : ∀ p ∈ pool, p.serves cell = false) (w : Window)
    (operators : List Profile) :
    ∃ missing, v.feasibility pool operators w .allListed = .error (.cellUnavailable missing) := by
  have hnot : Variant.cellServed pool w cell = false :=
    List.any_eq_false.mpr fun p hp => by simp [hunserved p hp]
  have hsome : (v.cells.names.find? fun cell => !Variant.cellServed pool w cell).isSome = true :=
    List.find?_isSome.mpr ⟨cell, hcell, by simp [hnot]⟩
  obtain ⟨missing, hmissing⟩ := Option.isSome_iff_exists.mp hsome
  refine ⟨missing, ?_⟩
  rw [Variant.feasibility, Variant.cellObstacle?, hmissing]
  rfl

/-- Integrity and choices agree on cells. Of input without defects, the variants of each of its
tasks can be chosen from, in every window in which all cells and machines are available and in both
modes, and none of them fails for want of a cell. Where an unknown cell is reported, there is a
variant with that id and cell, and every such variant fails for want of a cell in every window when
all cells must be served, and is never selected then, whatever the skills and absences of the
profiles. -/
theorem integrity_agrees_with_choice (variants : List Variant) (pool : List Profile) :
    (ofInput variants pool = [] → ∀ task ∈ variants.map (·.task), ∀ w,
      (∀ p ∈ pool, p.kind ≠ .operator → p.availableDuring w = true) →
      ∀ (policy : Option Policy) (options : ChoiceOptions),
        (∃ choice, Choice.among policy (variants.filter (·.task = task)) pool w options =
          .ok choice) ∧
        ∀ v ∈ variants.filter (·.task = task), ∀ operators,
          (∀ cell, v.feasibility pool operators w options.cellMatch ≠
            .error (.cellUnavailable cell)) ∧
          v.feasibility pool operators w options.cellMatch ≠ .error .noCellAvailable) ∧
    (∀ id cell, .unknownCell id cell ∈ ofInput variants pool →
      (∃ v ∈ variants, v.id = id ∧ v.cells.contains cell = true) ∧
      ∀ v ∈ variants, v.id = id → v.cells.contains cell = true →
        ∀ pool', (∀ p' ∈ pool', ∃ p ∈ pool, p'.SameCells p) → ∀ w,
          (∀ operators, ∃ missing,
            v.feasibility pool' operators w .allListed = .error (.cellUnavailable missing)) ∧
          ∀ policy listed fastest count coverage,
            Choice.among policy listed pool' w ⟨fastest, .allListed⟩ ≠
              .ok (.selected v count coverage)) := by
  refine ⟨fun hsound task htask w havailable policy options => ⟨?_, ?_⟩,
    fun id cell hreport => ?_⟩
  · obtain ⟨v, hv, htask⟩ := List.mem_map.mp htask
    have hlisted : v ∈ variants.filter (·.task = task) :=
      List.mem_filter.mpr ⟨hv, by simpa using htask⟩
    cases hanswer : Choice.among policy (variants.filter (·.task = task)) pool w options with
    | ok choice => exact ⟨choice, rfl⟩
    | error fault =>
      exact absurd (Choice.among_eq_error_iff.mp hanswer).1 (List.ne_nil_of_mem hlisted)
  · intro v hv operators
    have hserved : ∀ cell ∈ v.cells.names, ∃ p ∈ pool, p.serves cell = true := fun _ =>
      exists_serves_of_sound hsound (List.mem_of_mem_filter hv)
    rw [Variant.feasibility, cellObstacle?_of_served hserved havailable]
    cases Coverage.ofPool v.requirements operators <;> simp [Except.mapError]
  · obtain ⟨⟨u, hu, hid, hcell⟩, hunserved⟩ := unknownCell_mem_ofInput_iff.mp hreport
    refine ⟨⟨u, hu, hid, List.contains_iff_mem.mpr hcell⟩, fun v hv _ hlists pool' hpool' w => ?_⟩
    have hunserved' : ∀ p' ∈ pool', p'.serves cell = false := by
      intro p' hp'
      obtain ⟨p, hp, hsame⟩ := hpool' p' hp'
      rw [hsame.serves, hunserved p hp]
    have hfails := feasibility_of_unserved (List.contains_iff_mem.mp hlists) hunserved' w
    refine ⟨hfails, fun policy listed fastest count coverage hselected => ?_⟩
    obtain ⟨missing, hmissing⟩ := hfails (operatorsDuring pool' w)
    have hcheck := (Choice.among_eq_selected_iff.mp hselected).2.2
    rw [Choice.check, hmissing] at hcheck
    cases hcheck

/-- A weld in a kiln. -/
def kilnWeld : Variant := { Choice.soloWeld with cells := NameSet.empty.insert "kiln" }

/-- The weld shop, where nobody is in use and nobody has a skill. -/
def idleShop : List Profile :=
  Choice.weldShop.map fun p => { p with active := false, skills := .empty }

/-- Two welds at the bench are sound, and there is one to choose; a weld in a kiln is reported, and
fails for want of a cell also in a shop where nobody is in use. -/
theorem integrity_agrees_with_choice_weld :
    let welds := [Choice.soloWeld, Choice.duoWeld]
    ofInput welds Choice.weldShop = [] ∧
      (∀ p ∈ Choice.weldShop, p.kind ≠ .operator → p.availableDuring Choice.shift = true) ∧
      (∃ choice, Choice.among none (welds.filter (·.task = "weld")) Choice.weldShop Choice.shift
        ⟨true, .anyListed⟩ = .ok choice) ∧
      .unknownCell "solo" "kiln" ∈ ofInput [kilnWeld] Choice.weldShop ∧
      ∃ missing, kilnWeld.feasibility idleShop [] Choice.shift .allListed =
        .error (.cellUnavailable missing) := by
  intro welds
  have hsound : ofInput welds Choice.weldShop = [] := by cbv
  have havailable : ∀ p ∈ Choice.weldShop, p.kind ≠ .operator →
      p.availableDuring Choice.shift = true := by decide
  have hreport : .unknownCell "solo" "kiln" ∈ ofInput [kilnWeld] Choice.weldShop := by
    have hinput : ofInput [kilnWeld] Choice.weldShop = [.unknownCell "solo" "kiln"] := by cbv
    rw [hinput]
    exact List.mem_singleton_self _
  have hidle : ∀ p' ∈ idleShop, ∃ p ∈ Choice.weldShop, p'.SameCells p := by
    intro p' hp'
    obtain ⟨p, hp, rfl⟩ := List.mem_map.mp hp'
    exact ⟨p, hp, rfl, rfl, rfl⟩
  have hchoice := ((integrity_agrees_with_choice welds Choice.weldShop).1 hsound "weld"
    (by decide) Choice.shift havailable none ⟨true, .anyListed⟩).1
  have hfails := (((integrity_agrees_with_choice [kilnWeld] Choice.weldShop).2 "solo" "kiln"
    hreport).2 kilnWeld (by simp) rfl (by decide) idleShop hidle Choice.shift).1
  exact ⟨hsound, havailable, hchoice, hreport, hfails []⟩

end Integrity

end ShopFloor
