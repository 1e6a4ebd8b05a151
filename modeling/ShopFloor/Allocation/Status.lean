import ShopFloor.Text.Blank
import ShopFloor.Text.Case

/-!
# The lifecycle of an allocation

A record is planned, confirmed, active and completed in this order. Before it is completed it may
turn conflicted, and a conflicted record may be confirmed again. Only a completed record no longer
occupies its resource.
-/

namespace ShopFloor

/-- A stage in the lifecycle of an allocation. -/
inductive Status where
  /-- Intended, not yet agreed. -/
  | planned
  /-- Agreed. -/
  | confirmed
  /-- Under way. -/
  | active
  /-- Done; the resource is free again. -/
  | completed
  /-- In the way of other records of the resource. -/
  | conflicted
  deriving DecidableEq, Repr, Inhabited

namespace Status

/-- The stages in the order of the lifecycle. -/
def all : List Status := [planned, confirmed, active, completed, conflicted]

/-- Every stage is listed. -/
theorem mem_all (status : Status) : status ∈ all := by cases status <;> decide

/-- The name of a stage. -/
def name : Status → String
  | planned => "planned"
  | confirmed => "confirmed"
  | active => "active"
  | completed => "completed"
  | conflicted => "conflicted"

/-- Stages have different names. -/
theorem name_injective {a b : Status} (h : a.name = b.name) : a = b := by
  cases a <;> cases b <;> first | rfl | exact absurd h (by decide)

/-- The stage with a name, whatever the case of its letters and the blank around it. -/
def ofText? (text : String) : Option Status :=
  all.find? fun status => status.name = Text.lower (Text.trim text)

/-- Whether a record at this stage holds its resource. -/
def occupies (status : Status) : Bool := status ≠ completed

/-- Whether the lifecycle leads from one stage directly to another. -/
def canBecome : Status → Status → Bool
  | planned, confirmed => true
  | confirmed, active => true
  | active, completed => true
  | planned, conflicted => true
  | confirmed, conflicted => true
  | active, conflicted => true
  | conflicted, confirmed => true
  | _, _ => false

/-- A stage can turn conflicted exactly when it occupies and is not conflicted yet. -/
theorem canBecome_conflicted (status : Status) :
    status.canBecome conflicted = (status.occupies && status != conflicted) := by
  cases status <;> rfl

/-- Nothing follows completion. -/
theorem completed_canBecome (next : Status) : completed.canBecome next = false := by
  cases next <;> rfl

end Status

end ShopFloor
