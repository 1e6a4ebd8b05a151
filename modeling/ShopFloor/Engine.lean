import ShopFloor.Event.Outlet
import ShopFloor.Intake
import ShopFloor.Ledger.Indicators
import ShopFloor.Registry
import ShopFloor.Settings

/-!
# The engine

The engine joins the registry, the ledger, the intake of batches and an outlet for events. It
selects variants and records allocations, and reports each selection and each insertion that leaves
records in conflict. The limits of resources are those that the registry declares at the time of a
request, or the one of the settings.
-/

namespace ShopFloor

/-- An engine at work. -/
structure Engine where
  /-- The known resources and tasks. -/
  registry : Registry
  /-- The allocations. -/
  ledger : Ledger
  /-- The policy, if it is not the standard one. -/
  policy : Option Policy
  /-- Where events go. -/
  outlet : Outlet
  /-- What is remembered of batches. -/
  intake : Intake
  /-- The settings. -/
  settings : Settings

namespace Engine

/-- An engine over a registry, if its settings are sound. -/
def ofSettings (registry : Registry) (settings : Settings) : Except Fault Engine := do
  let settings ← settings.check
  return ⟨registry, .empty, none, .unset, .ofCapacity settings.cacheCapacity, settings⟩

/-- The engine with an outlet that buffers as many events as its settings say. -/
def withBuffer (engine : Engine) : Engine :=
  { engine with outlet := .buffered (.ofCapacity engine.settings.eventBuffer) }

/-- The engine after an event has gone to its outlet. -/
def emit (engine : Engine) (event : Event) : Engine :=
  { engine with outlet := engine.outlet.emit event }

/-- The limits of resources. -/
def limits (engine : Engine) : Limits :=
  engine.registry.limits engine.settings.defaultMaxConcurrent

/-- The event that reports a choice. -/
def choiceEvent (task : String) (w : Window) : Choice → Event
  | .selected variant feasible _ =>
    .variantSelected task variant.id feasible w.start w.stop
  | .infeasible rejections => .variantInfeasible task rejections.length w.start w.stop

/-- The choice among the variants of a task, from a pool. -/
def choose (engine : Engine) (task : String) (w : Window) (pool : List Profile)
    (options : ChoiceOptions) : Except Fault Choice :=
  match engine.registry.variantsOf? task with
  | none => .error (.unknownTask task)
  | some variants => Choice.among engine.policy variants pool w options

/-- The engine after a choice among the variants of a task was asked for, and the choice. -/
def select (engine : Engine) (task : String) (w : Window) (pool : List Profile)
    (options : ChoiceOptions) : Engine × Except Fault Choice :=
  match engine.choose task w pool options with
  | .error fault => (engine, .error fault)
  | .ok choice => (engine.emit (choiceEvent task w choice), .ok choice)

/-- The choice from all registered resources, with the options of the settings. -/
def selectRegistered (engine : Engine) (task : String) (w : Window) :
    Engine × Except Fault Choice :=
  engine.select task w engine.registry.pool engine.settings.options

/-- The event that reports an insertion, if it left records in conflict. -/
def conflictEvent? (insertion : Insertion) : Option Event :=
  if insertion.affected.isEmpty then none
  else
    some (.conflictDetected insertion.resource insertion.record insertion.affected insertion.peak
      insertion.limit)

/-- The engine after a ledger took a record in or refused it. -/
def reported (engine : Engine) (outcome : Ledger × Except Fault Insertion) :
    Engine × Except Fault Insertion :=
  let next := { engine with ledger := outcome.1 }
  match outcome.2 with
  | .error fault => (next, .error fault)
  | .ok insertion =>
    match conflictEvent? insertion with
    | none => (next, .ok insertion)
    | some event => (next.emit event, .ok insertion)

/-- The engine after a record was inserted. -/
def add (engine : Engine) (record : Record) : Engine × Except Fault Insertion :=
  engine.reported (engine.ledger.add engine.limits record)

/-- The engine after a record was inserted into a book at an expected revision. -/
def addExpecting (engine : Engine) (record : Record) (revision : Nat) :
    Engine × Except Fault Insertion :=
  engine.reported (engine.ledger.addExpecting engine.limits record revision)

/-- The engine after a record moved to another stage. -/
def transition (engine : Engine) (id : String) (next : Status) : Engine × Except Fault Record :=
  let (ledger, answer) := engine.ledger.transition engine.limits id next
  ({ engine with ledger }, answer)

/-- The engine after a record was taken out. -/
def remove (engine : Engine) (id : String) : Engine × Except Fault Record :=
  let (ledger, answer) := engine.ledger.remove id
  ({ engine with ledger }, answer)

/-- The occupancy of a resource, against its limit. -/
def utilization (engine : Engine) (resource : String) (w : Window) :
    Except Fault Utilization :=
  Indicators.sample engine.ledger engine.limits w resource

/-- The occupancy of resources over slots of the width of the settings. -/
def utilizationMatrix (engine : Engine) (resources : List String) (horizon : Window) :
    Except Fault (List (List Utilization)) :=
  engine.ledger.utilizationMatrix engine.limits resources horizon engine.settings.slotMinutes

/-- The indicators of all resources that have records. -/
def indicators (engine : Engine) (horizon : Window) : Except Fault Indicators :=
  Indicators.ofLedger engine.ledger engine.limits engine.ledger.resources horizon
    engine.settings.slotMinutes

/-- The engine after requirements were read from the text of a list. -/
def decodeRequirements (engine : Engine) (text : String) :
    Engine × Except Fault (List Requirement) :=
  let (intake, answer) := engine.intake.requirementList text
  ({ engine with intake }, answer)

/-- The engine after the rows of a text were recorded. All rows are read before the first record is
inserted, and insertion ends at the first record that is refused. -/
def load (engine : Engine) (text : String) : Engine × Except Fault (List Insertion) :=
  let (intake, records) := engine.intake.allocationsOfText text
  let next := { engine with intake }
  match records with
  | .error fault => (next, .error fault)
  | .ok records => inTurn add next records

/-- The text that describes an engine. -/
def describe (engine : Engine) : String :=
  "MatchingEngine \x7b ledger: "
    ++ engine.ledger.describe engine.settings.defaultMaxConcurrent
    ++ ", events: " ++ engine.outlet.describe
    ++ ", config: " ++ engine.settings.describe ++ " \x7d"

end Engine

end ShopFloor
