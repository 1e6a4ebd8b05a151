import ShopFloor.Coverage
import ShopFloor.Variant

/-!
# Feasible variants

A variant is feasible in a window when the cells it lists are served by resources available in the
window and its requirements are covered by the operators given. Cells are looked at first; the
first obstacle met is the reason reported.
-/

namespace ShopFloor

/-- How many of the cells of a variant must be served. -/
inductive CellMatch where
  /-- Every listed cell. -/
  | allListed
  /-- One listed cell, if any is listed. -/
  | anyListed
  deriving DecidableEq, Repr, Inhabited

namespace CellMatch

/-- The two modes. -/
def all : List CellMatch := [allListed, anyListed]

/-- The name of a mode. -/
def name : CellMatch → String
  | allListed => "all_listed"
  | anyListed => "any_listed"

end CellMatch

/-- Why a variant cannot run. -/
inductive Obstacle where
  /-- No available resource serves this cell. -/
  | cellUnavailable (cell : String)
  /-- No available resource serves any of the cells. -/
  | noCellAvailable
  /-- The operators do not cover the requirements. -/
  | shortfall (missing : Shortfall)
  deriving DecidableEq, Repr

namespace Variant

/-- Whether a resource of a pool serves a cell during a window. -/
def cellServed (pool : List Profile) (w : Window) (cell : String) : Bool :=
  pool.any fun p => p.serves cell && p.availableDuring w

/-- The obstacle that the cells of a variant raise, if any. -/
def cellObstacle? (v : Variant) (pool : List Profile) (w : Window) : CellMatch → Option Obstacle
  | .allListed =>
    (v.cells.names.find? fun cell => !cellServed pool w cell).map .cellUnavailable
  | .anyListed =>
    if v.cells.isEmpty || v.cells.names.any (cellServed pool w) then none
    else some .noCellAvailable

/-- The coverage that makes a variant feasible, or the obstacle to it. The operators are those that
are available in the window. -/
def feasibility (v : Variant) (pool operators : List Profile) (w : Window) (mode : CellMatch) :
    Except Obstacle Coverage :=
  match v.cellObstacle? pool w mode with
  | some obstacle => .error obstacle
  | none => (Coverage.ofPool v.requirements operators).mapError .shortfall

end Variant

/-- The operators of a pool that are available in a window. -/
def operatorsDuring (pool : List Profile) (w : Window) : List Profile :=
  pool.filter fun p => p.kind = .operator && p.availableDuring w

end ShopFloor
