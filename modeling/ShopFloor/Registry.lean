import ShopFloor.Ledger.Basic
import ShopFloor.Profile
import ShopFloor.Variant

/-!
# The registry

The registry holds the latest profile of each resource and the variants of each task. A variant
takes the place of an older one of the same id in its task and goes to the end of the list, so the
list is in the order of the latest registrations. A task can be known without having variants.
-/

namespace ShopFloor

/-- The known resources and tasks. -/
structure Registry where
  /-- The profile of each resource, by its id. -/
  profiles : NameMap Profile
  /-- The variants of each task, by its id. -/
  tasks : NameMap (List Variant)
  deriving DecidableEq, Repr

namespace Registry

/-- The registry that knows nothing. -/
def empty : Registry := ⟨.empty, .empty⟩

/-- The registry with a profile put in place of an older one of its id. -/
def upsert (registry : Registry) (profile : Profile) : Registry :=
  { registry with profiles := registry.profiles.insert profile.id profile }

/-- The registry without the profile of a resource. -/
def removeProfile (registry : Registry) (resource : String) : Registry :=
  { registry with profiles := registry.profiles.erase resource }

/-- The profile of a resource. -/
def profile? (registry : Registry) (resource : String) : Option Profile :=
  registry.profiles.get? resource

/-- All profiles, by ascending id. -/
def pool (registry : Registry) : List Profile := registry.profiles.values

/-- The limit that a resource declares. -/
def limit? (registry : Registry) (resource : String) : Option Nat :=
  (registry.profile? resource).map (·.maxConcurrent)

/-- The limits of all resources, with one for those that are not known. -/
def limits (registry : Registry) (fallback : Nat) : Limits := ⟨registry.limit?, fallback⟩

/-- The variants of a task, if the task is known. -/
def variantsOf? (registry : Registry) (task : String) : Option (List Variant) :=
  registry.tasks.get? task

/-- The registry with a variant at the end of the list of its task. -/
def register (registry : Registry) (v : Variant) : Registry :=
  let others := ((registry.variantsOf? v.task).getD []).filter (·.id ≠ v.id)
  { registry with tasks := registry.tasks.insert v.task (others ++ [v]) }

/-- The registry that knows a task, with the variants it had. -/
def registerTask (registry : Registry) (task : String) : Registry :=
  if registry.tasks.contains task then registry
  else { registry with tasks := registry.tasks.insert task [] }

/-- A registered variant is the last one of its task. -/
theorem getLast?_variantsOf?_register (registry : Registry) (v : Variant) :
    ((registry.register v).variantsOf? v.task).bind List.getLast? = some v := by
  simp [register, variantsOf?]

end Registry

end ShopFloor
