import ShopFloor.Event.Basic
import ShopFloor.Json.Tagged

/-!
# JSON forms of events

How events are written as JSON: tagged with their type.
-/

namespace ShopFloor

open Json

/-- The forms of an event. -/
def Event.alternatives : List (Alternative Event) :=
  [ { name := "VariantSelected"
      Content := _
      Draft := _
      shape := .field "task_id" .string none
        (.field "variant_id" .string none
          (.field "feasible_count" .nat64 none
            (.field "window_start_ms" .int64 none
              (.field "window_end_ms" .int64 none .done))))
      make := fun (task, variant, feasible, start, stop, _) =>
        .variantSelected task variant feasible start stop
      fields? := fun
        | .variantSelected task variant feasible start stop =>
          some (task, variant, feasible, start, stop, ())
        | _ => none },
    { name := "VariantInfeasible"
      Content := _
      Draft := _
      shape := .field "task_id" .string none
        (.field "rejected" .nat64 none
          (.field "window_start_ms" .int64 none (.field "window_end_ms" .int64 none .done)))
      make := fun (task, rejected, start, stop, _) => .variantInfeasible task rejected start stop
      fields? := fun
        | .variantInfeasible task rejected start stop => some (task, rejected, start, stop, ())
        | _ => none },
    { name := "AllocationConflictDetected"
      Content := _
      Draft := _
      shape := .field "resource_id" .string none
        (.field "record_id" .string none
          (.field "affected_ids" (.list .string) none
            (.field "peak_concurrency" .nat32 none (.field "limit" .nat32 none .done))))
      make := fun (resource, record, affected, peak, limit, _) =>
        .conflictDetected resource record affected peak limit
      fields? := fun
        | .conflictDetected resource record affected peak limit =>
          some (resource, record, affected, peak, limit, ())
        | _ => none } ]

/-- Events: tagged with the type. -/
def Event.codec : Codec Event := .tagged "type" Event.alternatives

end ShopFloor
