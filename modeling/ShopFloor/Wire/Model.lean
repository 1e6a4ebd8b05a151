import ShopFloor.Allocation.Record
import ShopFloor.Json.Shape
import ShopFloor.Profile
import ShopFloor.Variant

/-!
# JSON forms of the model

How windows, requirements, profiles, variants and allocation records are written as JSON. Reading
goes through the same rules as making a value, so that no text yields a window that is not in
order, a requirement of no holder or a variant that takes no time.
-/

namespace ShopFloor

open Json

/-- The fields of a window. -/
def Window.shape : Shape (Int × Int × Unit) (Option Int × Option Int × Unit) :=
  .field "start_ms" .int64 none (.field "end_ms" .int64 none .done)

/-- Windows: their two instants. -/
def Window.codec : Codec Window :=
  .checked Window.shape (fun (start, stop, _) => Window.between start stop)
    fun w => (w.start, w.stop, ())

/-- Levels: their names. -/
def Level.codec : Codec Level := .named Level.all Level.name

/-- The fields of a requirement. -/
def Requirement.shape : Shape (String × Level × Nat × Unit)
    (Option String × Option Level × Option Nat × Unit) :=
  .field "skill_type" .string none
    (.field "min_level" Level.codec none (.field "quantity" .nat32 none .done))

/-- Requirements: skill, level and number of holders. -/
def Requirement.codec : Codec Requirement :=
  .checked Requirement.shape
    (fun (skill, level, quantity, _) => Requirement.make skill level quantity)
    fun r => (r.skill, r.level, r.quantity, ())

/-- Kinds of resources: their names. -/
def Kind.codec : Codec Kind := .named Kind.all Kind.name

/-- Profiles: all they declare. -/
def Profile.codec : Codec Profile :=
  .record
    (.field "id" .string none
      (.field "kind" Kind.codec none
        (.field "skills" (.nameMap Level.codec) none
          (.field "compatible_cells" .nameSet none
            (.field "unavailable" (.list Window.codec) none
              (.field "active" .bool none
                (.field "max_concurrent_tasks" .nat32 none .done)))))))
    (fun (id, kind, skills, cells, unavailable, active, maxConcurrent, _) =>
      ⟨id, kind, skills, cells, unavailable, active, maxConcurrent⟩)
    fun p => (p.id, p.kind, p.skills, p.cells, p.unavailable, p.active, p.maxConcurrent, ())

/-- The fields of a variant. Requirements, cells and preference may be left out. -/
def Variant.shape :
    Shape (String × String × Nat × List Requirement × NameSet × Bool × Unit)
      (Option String × Option String × Option Nat × Option (List Requirement) × Option NameSet ×
        Option Bool × Unit) :=
  .field "id" .string none
    (.field "task_id" .string none
      (.field "duration_minutes" .nat32 none
        (.field "skill_requirements" (.list Requirement.codec) (some [])
          (.field "acceptable_cells" .nameSet (some .empty)
            (.field "is_primary" .bool (some false) .done)))))

/-- Variants: what they take. -/
def Variant.codec : Codec Variant :=
  .checked Variant.shape
    (fun (id, task, minutes, requirements, cells, primary, _) =>
      Variant.make id task minutes requirements cells primary)
    fun v => (v.id, v.task, v.minutes, v.requirements, v.cells, v.primary, ())

/-- Stages of the lifecycle: their names. -/
def Status.codec : Codec Status := .named Status.all Status.name

/-- Allocation records: all they hold. -/
def Record.codec : Codec Record :=
  .record
    (.field "id" .string none
      (.field "resource_id" .string none
        (.field "interval" Window.codec none
          (.field "payload_ref" .string none (.field "status" Status.codec none .done)))))
    (fun (id, resource, interval, payload, status, _) => ⟨id, resource, interval, payload, status⟩)
    fun r => (r.id, r.resource, r.interval, r.payload, r.status, ())

end ShopFloor
