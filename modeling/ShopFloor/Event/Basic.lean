/-!
# Events

What the engine reports about its decisions: a variant was selected, none was feasible, or an
insertion left records in conflict.
-/

namespace ShopFloor

/-- A report of a decision. -/
inductive Event where
  /-- A variant of a task was selected for a window. -/
  | variantSelected (task variant : String) (feasible : Nat) (start stop : Int)
  /-- No variant of a task can run in a window. -/
  | variantInfeasible (task : String) (rejected : Nat) (start stop : Int)
  /-- An insertion left records in conflict. -/
  | conflictDetected (resource record : String) (affected : List String) (peak limit : Nat)
  deriving DecidableEq, Repr

namespace Event

/-- The name of the kind of an event. -/
def name : Event → String
  | variantSelected .. => "VariantSelected"
  | variantInfeasible .. => "VariantInfeasible"
  | conflictDetected .. => "AllocationConflictDetected"

end Event

end ShopFloor
