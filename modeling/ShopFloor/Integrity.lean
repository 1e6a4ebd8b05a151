import ShopFloor.Profile
import ShopFloor.Text.Decimal
import ShopFloor.Variant

/-!
# Integrity of variants and pools

Defects of the variants of a task and of a pool of resources: ids that occur again, variants listed
under another task, a number of preferred variants other than one, cells that no resource serves,
and limits of zero. A selection tolerates all of them; they are reported for those who load data.
-/

namespace ShopFloor

/-- A defect, by cause. -/
inductive Defect where
  /-- A variant id that occurred before. -/
  | duplicateVariant (variant : String)
  /-- A resource id that occurred before. -/
  | duplicateResource (resource : String)
  /-- A task without variants. -/
  | noVariants (task : String)
  /-- A variant of one task that is listed under another. -/
  | wrongTask (variant actual listed : String)
  /-- A task that has not exactly one preferred variant. -/
  | primaryCount (task : String) (count : Nat)
  /-- A cell of a variant that no resource serves. -/
  | unknownCell (variant cell : String)
  /-- A resource that carries nothing at once. -/
  | zeroCapacity (resource : String)
  deriving DecidableEq, Repr

namespace Defect

/-- The kinds of defects. -/
inductive Kind where
  /-- An id that occurs again. -/
  | duplicateId
  /-- A task without variants. -/
  | emptyVariantSet
  /-- A variant under another task than its own. -/
  | taskMismatch
  /-- A number of preferred variants other than one. -/
  | primaryCount
  /-- A cell that nothing serves. -/
  | invalidCellReference
  /-- A limit of zero. -/
  | zeroCapacity
  deriving DecidableEq, Repr

/-- The name of a kind. -/
def Kind.name : Kind → String
  | duplicateId => "DuplicateId"
  | emptyVariantSet => "EmptyVariantSet"
  | taskMismatch => "TaskMismatch"
  | primaryCount => "PrimaryCount"
  | invalidCellReference => "InvalidCellReference"
  | zeroCapacity => "ZeroCapacity"

/-- The kind of a defect. Ids that occur again are of one kind, whatever they are ids of. -/
def kind : Defect → Kind
  | duplicateVariant _ => .duplicateId
  | duplicateResource _ => .duplicateId
  | noVariants _ => .emptyVariantSet
  | wrongTask .. => .taskMismatch
  | primaryCount .. => .primaryCount
  | unknownCell .. => .invalidCellReference
  | zeroCapacity _ => .zeroCapacity

/-- The text that reports a defect. -/
def message : Defect → String
  | duplicateVariant variant => "Duplicate variant ID: " ++ variant
  | duplicateResource resource => "Duplicate resource ID: " ++ resource
  | noVariants task => "Task " ++ Fault.quoted task ++ " has no execution variants"
  | wrongTask variant actual listed =>
    "Variant " ++ Fault.quoted variant ++ " belongs to task " ++ Fault.quoted actual
      ++ ", listed under " ++ Fault.quoted listed
  | primaryCount task count =>
    "Task " ++ Fault.quoted task ++ " has " ++ Text.natText count
      ++ " primary variants, expected 1"
  | unknownCell variant cell =>
    "Variant " ++ Fault.quoted variant ++ " references unknown cell " ++ Fault.quoted cell
  | zeroCapacity resource =>
    "Resource " ++ Fault.quoted resource ++ " has a concurrency limit of 0"

end Defect

namespace Integrity

/-- The defect if a condition holds. -/
def reportIf (condition : Bool) (defect : Defect) : List Defect :=
  if condition then [defect] else []

/-- The defects of single variants of a task, given the ids that occurred before. -/
def ofVariants (task : String) (seen : List String) : List Variant → List Defect
  | [] => []
  | v :: rest =>
    reportIf (seen.contains v.id) (.duplicateVariant v.id)
      ++ reportIf (v.task ≠ task) (.wrongTask v.id v.task task)
      ++ ofVariants task (v.id :: seen) rest

/-- The defects of the variants of a task. -/
def ofTask (task : String) (variants : List Variant) : List Defect :=
  let primaries := variants.countP (·.primary)
  reportIf variants.isEmpty (.noVariants task)
    ++ ofVariants task [] variants
    ++ reportIf (!variants.isEmpty && primaries ≠ 1) (.primaryCount task primaries)

/-- The defects of single profiles, given the ids that occurred before. -/
def ofProfiles (seen : List String) : List Profile → List Defect
  | [] => []
  | p :: rest =>
    reportIf (seen.contains p.id) (.duplicateResource p.id)
      ++ reportIf (p.maxConcurrent = 0) (.zeroCapacity p.id)
      ++ ofProfiles (p.id :: seen) rest

/-- The defects of a pool. -/
def ofPool (pool : List Profile) : List Defect := ofProfiles [] pool

/-- Whether a resource of a pool, other than an operator, serves a cell at any time. -/
def isKnownCell (pool : List Profile) (cell : String) : Bool :=
  pool.any fun p => p.kind ≠ .operator && p.serves cell

/-- The cells of a variant that no resource of a pool serves. -/
def unknownCells (pool : List Profile) (v : Variant) : List Defect :=
  (v.cells.names.filter fun cell => !isKnownCell pool cell).map (.unknownCell v.id)

/-- The tasks that variants belong to, ascending. -/
def tasksOf (variants : List Variant) : List String :=
  (NameSet.ofList (variants.map (·.task))).names

/-- The defects of variants of any tasks together with a pool: those of the pool, then those of each
task by ascending id, then the cells that are not served. -/
def ofInput (variants : List Variant) (pool : List Profile) : List Defect :=
  ofPool pool
    ++ (tasksOf variants).flatMap (fun task => ofTask task (variants.filter (·.task = task)))
    ++ variants.flatMap (unknownCells pool)

end Integrity

end ShopFloor
