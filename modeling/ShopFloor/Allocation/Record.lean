import ShopFloor.Window.Basic

/-!
# Allocation records

A record commits a resource to a window of time for some purpose. Once stored, nothing but its
stage in the lifecycle changes.
-/

namespace ShopFloor

/-- A stage of the lifecycle read from its name. -/
def Status.parse (text : String) : Except Fault Status :=
  match Status.ofText? text with
  | some status => .ok status
  | none => .error (.unknownStatus text)

/-- The commitment of a resource to a window of time. -/
structure Record where
  /-- The id of the record. -/
  id : String
  /-- The resource committed. -/
  resource : String
  /-- When it is occupied. -/
  interval : Window
  /-- What it is occupied for; never looked into. -/
  payload : String
  /-- The stage in the lifecycle. -/
  status : Status
  deriving DecidableEq, Repr

namespace Record

/-- Whether a record still holds its resource. -/
def occupies (r : Record) : Bool := r.status.occupies

/-- Whether a record is flagged as conflicted. -/
def isConflicted (r : Record) : Bool := r.status = .conflicted

/-- A conflicted record occupies its resource. -/
theorem occupies_of_isConflicted {r : Record} (h : r.isConflicted = true) :
    r.occupies = true := by
  simp only [isConflicted, decide_eq_true_eq] at h
  simp [occupies, h, Status.occupies]

/-- The record at another stage. -/
def withStatus (r : Record) (status : Status) : Record := { r with status }

/-- Whether a record is listed before another: by start, then by id. -/
def listedBefore (a b : Record) : Bool :=
  a.interval.start < b.interval.start ||
    (a.interval.start == b.interval.start && a.id ≤ b.id)

end Record

end ShopFloor
