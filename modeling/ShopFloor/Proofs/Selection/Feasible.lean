import Mathlib
import ShopFloor.Proofs.Coverage.BestFirst
import ShopFloor.Selection.Feasibility

/-!
# Who counts and what can run

A resource counts in a window when it is in use and every absence of it is over by then or begins
later. A variant can run when its cells are served by such resources, each of them or one as the
mode asks, and when the operators among them cover its requirements; the obstacle to any other
variant is the first cell in turn that is not served, the lack of any served cell, or the shortfall
of the operators. All of this is told from the fields of the variant and of the profiles, without
the checks that decide it. Main statements: `operatorsDuring_eq_filter`, `cellsServed_iff`,
`feasibility_eq_ok_iff`, `feasibility_eq_error_iff`, `total_le_of_feasibility`.
-/

namespace ShopFloor

section Presence

/-- Whether a resource counts in a window: it is in use, and each absence of it is over by the start
of the window or begins at its end at the earliest. -/
def Profile.Counts (p : Profile) (w : Window) : Prop :=
  p.active = true ∧ ∀ away ∈ p.unavailable, away.stop ≤ w.start ∨ w.stop ≤ away.start

instance (p : Profile) (w : Window) : Decidable (p.Counts w) :=
  inferInstanceAs (Decidable (_ ∧ _))

/-- The available resources are those that count. -/
theorem Profile.availableDuring_iff {p : Profile} {w : Window} :
    p.availableDuring w = true ↔ p.Counts w := by
  have hclear (away : Window) :
      ¬away.overlaps w = true ↔ away.stop ≤ w.start ∨ w.stop ≤ away.start := by
    simp only [Window.overlaps, Bool.and_eq_true, decide_eq_true_eq]
    omega
  simp only [availableDuring, Counts, Bool.and_eq_true, Bool.not_eq_true', List.any_eq_false,
    hclear]

/-- The operators of a pool in a window are those of its profiles that are operators and count, as
they are listed. -/
theorem operatorsDuring_eq_filter (pool : List Profile) (w : Window) :
    operatorsDuring pool w = pool.filter fun p => p.kind = .operator ∧ p.Counts w := by
  refine List.filter_congr fun p _ => ?_
  rw [Bool.eq_iff_iff, Bool.and_eq_true, decide_eq_true_eq, decide_eq_true_eq,
    Profile.availableDuring_iff]

/-- The available operators of a pool with different ids have different ids. -/
theorem nodup_ids_operatorsDuring {pool : List Profile} (hnodup : (pool.map (·.id)).Nodup)
    (w : Window) : ((operatorsDuring pool w).map (·.id)).Nodup :=
  hnodup.sublist (List.filter_sublist.map _)

end Presence

/-- Whether a cell is served in a window: a resource of the pool counts and is no operator, and it
is the cell or lists it. -/
def Served (pool : List Profile) (w : Window) (cell : String) : Prop :=
  ∃ p ∈ pool, p.Counts w ∧ p.kind ≠ .operator ∧ (p.id = cell ∨ cell ∈ p.cells.names)

namespace Variant

variable {v : Variant} {pool operators : List Profile} {w : Window} {mode : CellMatch}

/-- Whether the cells of a variant are served as a mode asks: each of them, or one if any is
listed. -/
def CellsServed (v : Variant) (pool : List Profile) (w : Window) : CellMatch → Prop
  | .allListed => ∀ cell ∈ v.cells.names, Served pool w cell
  | .anyListed => v.cells.names = [] ∨ ∃ cell ∈ v.cells.names, Served pool w cell

/-- What is in the way of a variant in a window, given the operators that count. -/
inductive Hindered (v : Variant) (pool operators : List Profile) (w : Window) :
    CellMatch → Obstacle → Prop where
  /-- The first cell in turn that is not served, where each must be. -/
  | cell {before after : List String} {cell : String}
      (hsplit : v.cells.names = before ++ cell :: after)
      (hbefore : ∀ other ∈ before, Served pool w other) (hcell : ¬Served pool w cell) :
      Hindered v pool operators w .allListed (.cellUnavailable cell)
  /-- Cells of which none is served, where one would do. -/
  | anyCell (hlisted : v.cells.names ≠ []) (hnone : ∀ cell ∈ v.cells.names, ¬Served pool w cell) :
      Hindered v pool operators w .anyListed .noCellAvailable
  /-- The shortfall of the operators, where the cells are served. -/
  | shortfall {mode : CellMatch} {missing : Shortfall} (hserved : v.CellsServed pool w mode)
      (hmissing : Coverage.ofPool v.requirements operators = .error missing) :
      Hindered v pool operators w mode (.shortfall missing)

/-- A cell is found to be served exactly when it is. -/
theorem cellServed_iff {cell : String} : cellServed pool w cell = true ↔ Served pool w cell := by
  simp only [cellServed, Served, Profile.serves, List.any_eq_true, Bool.and_eq_true,
    decide_eq_true_eq, Bool.or_eq_true, Profile.availableDuring_iff, NameSet.contains,
    List.contains_iff_mem]
  exact exists_congr fun p => and_congr_right fun _ => and_comm

/-- Cells raise no obstacle exactly when they are served as the mode asks. -/
theorem cellsServed_iff : v.cellObstacle? pool w mode = none ↔ v.CellsServed pool w mode := by
  cases mode with
  | allListed => simp [cellObstacle?, CellsServed, cellServed_iff]
  | anyListed =>
    have hany : v.cells.names.any (cellServed pool w) = true ↔
        ∃ cell ∈ v.cells.names, Served pool w cell := by
      simp only [List.any_eq_true, cellServed_iff]
    rw [cellObstacle?, CellsServed, ← hany, NameSet.isEmpty, ← List.isEmpty_iff,
      ← Bool.or_eq_true]
    split <;> simp_all

/-- Cells that are all served are served as any mode asks. -/
theorem cellsServed_of_all (h : ∀ cell ∈ v.cells.names, Served pool w cell) (mode : CellMatch) :
    v.CellsServed pool w mode := by
  cases mode with
  | allListed => exact h
  | anyListed =>
    refine or_iff_not_imp_left.mpr fun hne => ?_
    obtain ⟨cell, hcell⟩ := List.exists_mem_of_ne_nil v.cells.names hne
    exact ⟨cell, hcell, h cell hcell⟩

/-- A variant is feasible exactly when its cells are served and the operators cover its
requirements; its coverage is the one they yield. -/
theorem feasibility_eq_ok_iff {coverage : Coverage} :
    v.feasibility pool operators w mode = .ok coverage ↔
      v.CellsServed pool w mode ∧ Coverage.ofPool v.requirements operators = .ok coverage := by
  rw [← cellsServed_iff]
  unfold feasibility
  cases v.cellObstacle? pool w mode with
  | some obstacle => simp
  | none => cases Coverage.ofPool v.requirements operators <;> simp [Except.mapError]

/-- The first cell in turn that is not served, as the check looks for it. -/
theorem find?_unserved_iff {cells : List String} {cell : String} :
    (cells.find? fun cell => !cellServed pool w cell) = some cell ↔ ∃ before after,
      cells = before ++ cell :: after ∧ (∀ other ∈ before, Served pool w other) ∧
        ¬Served pool w cell := by
  rw [List.find?_eq_some_iff_append]
  simp only [Bool.not_not, Bool.not_eq_true', ← Bool.not_eq_true, cellServed_iff]
  constructor
  · rintro ⟨hcell, before, after, hcells, hbefore⟩
    exact ⟨before, after, hcells, hbefore, hcell⟩
  · rintro ⟨before, after, hcells, hbefore, hcell⟩
    exact ⟨hcell, before, after, hcells, hbefore⟩

/-- A variant fails exactly by what is in its way: by its cells or, where these are served, by the
shortfall of the operators. -/
theorem feasibility_eq_error_iff {obstacle : Obstacle} :
    v.feasibility pool operators w mode = .error obstacle ↔
      v.Hindered pool operators w mode obstacle := by
  constructor
  · intro h
    unfold feasibility at h
    cases hcells : v.cellObstacle? pool w mode with
    | none =>
      rw [hcells] at h
      cases hcover : Coverage.ofPool v.requirements operators with
      | ok coverage =>
        rw [hcover] at h
        cases h
      | error missing =>
        rw [hcover] at h
        cases h
        exact .shortfall (cellsServed_iff.mp hcells) hcover
    | some found =>
      rw [hcells] at h
      cases h
      cases mode with
      | allListed =>
        obtain ⟨cell, hfind, rfl⟩ := Option.map_eq_some_iff.mp hcells
        obtain ⟨before, after, hsplit, hbefore, hcell⟩ := find?_unserved_iff.mp hfind
        exact .cell hsplit hbefore hcell
      | anyListed =>
        have hunserved : ¬v.CellsServed pool w .anyListed := fun hserved => by
          rw [cellsServed_iff.mpr hserved] at hcells
          cases hcells
        rw [cellObstacle?] at hcells
        split at hcells
        next => cases hcells
        next =>
          cases hcells
          rw [CellsServed, not_or, not_exists] at hunserved
          exact .anyCell hunserved.1 fun cell hcell hserved => hunserved.2 cell ⟨hcell, hserved⟩
  · intro h
    cases h with
    | cell hsplit hbefore hcell =>
      have hfind := find?_unserved_iff.mpr ⟨_, _, hsplit, hbefore, hcell⟩
      rw [feasibility, cellObstacle?, hfind]
      rfl
    | anyCell hlisted hnone =>
      have hunserved : v.cellObstacle? pool w .anyListed ≠ none := by
        intro hserved
        rcases cellsServed_iff.mp hserved with hempty | ⟨cell, hcell, h⟩
        · exact hlisted hempty
        · exact hnone cell hcell h
      rw [cellObstacle?] at hunserved
      rw [feasibility, cellObstacle?]
      split at hunserved
      next => exact absurd rfl hunserved
      next hcondition => rw [if_neg hcondition]
    | shortfall hserved hmissing =>
      rw [feasibility, cellsServed_iff.mpr hserved, hmissing]
      rfl

/-- A variant that can run asks for no more operators in all than there are. -/
theorem total_le_of_feasibility {coverage : Coverage}
    (h : v.feasibility pool operators w mode = .ok coverage) :
    (v.requirements.map (·.quantity)).sum ≤ operators.length := by
  have hbest := Coverage.ofPool_eq_ok_iff.mp (feasibility_eq_ok_iff.mp h).2
  -- The holders of a coverage are different ids of the operators.
  have hle := (List.subperm_of_subset hbest.nodup hbest.mem_ids).length_le
  rwa [hbest.length, List.length_map] at hle

end Variant

end ShopFloor
