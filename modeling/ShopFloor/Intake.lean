import ShopFloor.InTurn
import ShopFloor.Memo
import ShopFloor.Wire.Model

/-!
# Taking in batches

Lists of requirements and rows of allocations name the same few requirements and stages over and
over, so their readings are remembered. A requirement is remembered under its text without blank
around it, and a stage also in lower case. Remembering never changes what is read.
-/

namespace ShopFloor

open Json

/-- An allocation as it is delivered. -/
structure AllocationRow where
  /-- The id of the record. -/
  id : String
  /-- The resource. -/
  resource : String
  /-- The start of the interval. -/
  start : Int
  /-- The end of the interval. -/
  stop : Int
  /-- What it is for. -/
  payload : String
  /-- The name of its stage. -/
  status : String
  deriving DecidableEq, Repr

/-- Rows: the payload may be left out. -/
def AllocationRow.codec : Codec AllocationRow :=
  .record
    (.field "id" .string none
      (.field "resource_id" .string none
        (.field "start_ms" .int64 none
          (.field "end_ms" .int64 none
            (.field "payload_ref" .string (some "") (.field "status" .string none .done))))))
    (fun (id, resource, start, stop, payload, status, _) =>
      ⟨id, resource, start, stop, payload, status⟩)
    fun r => (r.id, r.resource, r.start, r.stop, r.payload, r.status, ())

/-- What is remembered of batches. -/
structure Intake where
  /-- Requirements by their texts. -/
  requirements : Memo Requirement
  /-- Stages by their names. -/
  statuses : Memo Status
  deriving DecidableEq, Repr

namespace Intake

/-- An intake that remembers nothing yet. -/
def ofCapacity (capacity : Nat) : Intake := ⟨.ofCapacity capacity, .ofCapacity capacity⟩

/-- A requirement from its text. -/
def requirement (intake : Intake) (text : String) : Intake × Except Fault Requirement :=
  let key := Text.trim text
  let (memo, answer) := intake.requirements.fetch key (Requirement.parse key)
  ({ intake with requirements := memo }, answer)

/-- Whether a character separates the requirements of a list. -/
def isSeparator (c : Char) : Bool := c == ',' || c == ';'

/-- The texts of the requirements of a list: what stands between separators and is not blank. -/
def parts (text : String) : List String :=
  (((Text.pieces isSeparator text.toList).map Text.trimChars).filter fun part =>
    !part.isEmpty).map String.ofList

/-- Requirements from the text of a list, in order. -/
def requirementList (intake : Intake) (text : String) :
    Intake × Except Fault (List Requirement) :=
  inTurn requirement intake (parts text)

/-- A stage from its name. -/
def status (intake : Intake) (text : String) : Intake × Except Fault Status :=
  let key := Text.lower (Text.trim text)
  let (memo, answer) := intake.statuses.fetch key (Status.parse key)
  ({ intake with statuses := memo }, answer)

/-- The record of a row. Its interval is judged before its stage. -/
def allocation (intake : Intake) (row : AllocationRow) : Intake × Except Fault Record :=
  match Window.between row.start row.stop with
  | .error fault => (intake, .error fault)
  | .ok interval =>
    let (next, answer) := intake.status row.status
    (next, answer.map fun status => ⟨row.id, row.resource, interval, row.payload, status⟩)

/-- The rows that a text holds. -/
def rowsOfText (text : String) : Except Fault (List AllocationRow) :=
  ((Codec.list AllocationRow.codec).read text).mapError fun _ => .malformedRows

/-- The records of the rows that a text holds. -/
def allocationsOfText (intake : Intake) (text : String) : Intake × Except Fault (List Record) :=
  match rowsOfText text with
  | .error fault => (intake, .error fault)
  | .ok rows => inTurn allocation intake rows

/-- The intake after all it remembered is forgotten. -/
def clear (intake : Intake) : Intake := ⟨intake.requirements.clear, intake.statuses.clear⟩

end Intake

end ShopFloor
