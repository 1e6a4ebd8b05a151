import ShopFloor.Allocation.Status
import ShopFloor.Text.Decimal

/-!
# Faults

What can be wrong with an input or a request, by cause, and the text that reports it. An
infeasible variant or a conflict between allocations is an ordinary answer and no fault.
-/

namespace ShopFloor

/-- The causes for which a request is refused. -/
inductive Fault where
  /-- The two instants bound no window: their order or their size is wrong. -/
  | invalidInterval (start stop : Int)
  /-- A requirement asks for no holder of a skill. -/
  | invalidQuantity (skill : String) (quantity : Nat)
  /-- A variant takes no time. -/
  | invalidDuration (variant : String) (minutes : Nat)
  /-- A resource can carry nothing at once. -/
  | invalidCapacity (resource : String) (capacity : Nat)
  /-- A text names no skill level. -/
  | unknownLevel (text : String)
  /-- A text names no stage of the lifecycle. -/
  | unknownStatus (text : String)
  /-- A text has not the form of a requirement. -/
  | malformedRequirement (text : String)
  /-- A text is no list of allocation rows. -/
  | malformedRows
  /-- There is no variant to select from. -/
  | noVariants
  /-- A task is not registered. -/
  | unknownTask (task : String)
  /-- No record has the id. -/
  | recordNotFound (record : String)
  /-- A record with the id is stored already. -/
  | duplicateRecord (record : String)
  /-- The lifecycle does not lead from the current stage to the next. -/
  | illegalTransition (record : String) (current next : Status)
  /-- A completed record cannot be removed. -/
  | illegalRemoval (record : String)
  /-- A conflicted record still meets too many others. -/
  | unresolvedConflict (record resource : String)
  /-- A resource has changed since the caller looked at it. -/
  | concurrentModification (resource : String) (expected actual : Nat)
  /-- A setting that must be positive is zero. -/
  | settingNotPositive (setting : String)
  /-- A text holds no settings. -/
  | unreadableSettings
  deriving DecidableEq, Repr

namespace Fault

/-- A name between single quotes. -/
def quoted (name : String) : String := "'" ++ name ++ "'"

/-- The text that reports a fault. -/
def message : Fault → String
  | invalidInterval start stop =>
    "invalid interval: start=" ++ Text.intText start ++ " must be before end=" ++ Text.intText stop
  | invalidQuantity skill quantity =>
    "invalid quantity for skill " ++ quoted skill ++ ": " ++ Text.natText quantity
      ++ " (must be >= 1)"
  | invalidDuration variant minutes =>
    "invalid duration for variant " ++ quoted variant ++ ": " ++ Text.natText minutes
      ++ " minutes (must be > 0)"
  | invalidCapacity resource capacity =>
    "invalid capacity for " ++ quoted resource ++ ": " ++ Text.natText capacity
      ++ " (must be >= 1)"
  | unknownLevel text => "unknown skill level: " ++ quoted text
  | unknownStatus text => "unknown allocation status: " ++ quoted text
  | malformedRequirement text => "malformed skill requirement: " ++ quoted text
  | malformedRows => "malformed allocation rows"
  | noVariants => "execution variant set is empty"
  | unknownTask task => "unknown task: " ++ quoted task
  | recordNotFound record => "allocation record not found: " ++ quoted record
  | duplicateRecord record => "allocation record already exists: " ++ quoted record
  | illegalTransition record current next =>
    "invalid status transition for " ++ quoted record ++ ": from=" ++ current.name
      ++ " to=" ++ next.name
  | illegalRemoval record =>
    "invalid status transition for " ++ quoted record ++ ": from=" ++ Status.completed.name
      ++ " to=removed"
  | unresolvedConflict record resource =>
    "allocation " ++ quoted record ++ " still overlaps beyond the concurrency limit of "
      ++ quoted resource
  | concurrentModification resource expected actual =>
    "concurrent modification on " ++ quoted resource ++ ": expected revision="
      ++ Text.natText expected ++ ", actual revision=" ++ Text.natText actual
  | settingNotPositive setting => "configuration error: " ++ setting ++ " must be positive"
  | unreadableSettings => "configuration error: the text holds no settings"

end Fault

end ShopFloor
