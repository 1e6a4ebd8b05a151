import ShopFloor.Json.Tagged
import ShopFloor.Ledger.Utilization
import ShopFloor.Selection.Choice
import ShopFloor.Wire.Model

/-!
# JSON forms of answers

How coverages, obstacles, choices, insertions and occupancies are written as JSON. An obstacle is
tagged with its reason and a choice with its outcome.
-/

namespace ShopFloor

open Json

/-- Covers: the requirement and who covers it. -/
def Cover.codec : Codec Cover :=
  .record
    (.field "requirement" Requirement.codec none
      (.field "profile_ids" (.list .string) none .done))
    (fun (requirement, holders, _) => ⟨requirement, holders⟩)
    fun c => (c.requirement, c.holders, ())

/-- Coverages: their covers. -/
def Coverage.codec : Codec Coverage :=
  .record (.field "covers" (.list Cover.codec) none .done) (fun (covers, _) => ⟨covers⟩)
    fun c => (c.covers, ())

/-- The fields of a shortfall. -/
def Shortfall.shape : Shape (Requirement × Nat × Unit) (Option Requirement × Option Nat × Unit) :=
  .field "requirement" Requirement.codec none (.field "found" .nat32 none .done)

/-- Shortfalls: the requirement and how many were found. -/
def Shortfall.codec : Codec Shortfall :=
  .record Shortfall.shape (fun (requirement, found, _) => ⟨requirement, found⟩)
    fun s => (s.requirement, s.found, ())

/-- The forms of an obstacle. -/
def Obstacle.alternatives : List (Alternative Obstacle) :=
  [ { name := "cell_unavailable"
      Content := _
      Draft := _
      shape := .field "cell_id" .string none .done
      make := fun (cell, _) => .cellUnavailable cell
      fields? := fun
        | .cellUnavailable cell => some (cell, ())
        | _ => none },
    { name := "no_cell_available"
      Content := _
      Draft := _
      shape := .done
      make := fun _ => .noCellAvailable
      fields? := fun
        | .noCellAvailable => some ()
        | _ => none },
    { name := "skill_shortfall"
      Content := _
      Draft := _
      shape := Shortfall.shape
      make := fun (requirement, found, _) => .shortfall ⟨requirement, found⟩
      fields? := fun
        | .shortfall missing => some (missing.requirement, missing.found, ())
        | _ => none } ]

/-- Obstacles: tagged with the reason. -/
def Obstacle.codec : Codec Obstacle := .tagged "reason" Obstacle.alternatives

/-- Rejections: the variant and its obstacle. -/
def Rejection.codec : Codec Rejection :=
  .record (.field "variant_id" .string none (.field "reason" Obstacle.codec none .done))
    (fun (variant, obstacle, _) => ⟨variant, obstacle⟩) fun r => (r.variant, r.obstacle, ())

/-- The forms of a choice. -/
def Choice.alternatives : List (Alternative Choice) :=
  [ { name := "selected"
      Content := _
      Draft := _
      shape := .field "variant" Variant.codec none
        (.field "feasible_count" .nat64 none (.field "coverage" Coverage.codec none .done))
      make := fun (variant, feasible, coverage, _) => .selected variant feasible coverage
      fields? := fun
        | .selected variant feasible coverage => some (variant, feasible, coverage, ())
        | _ => none },
    { name := "no_feasible_variant"
      Content := _
      Draft := _
      shape := .field "rejections" (.list Rejection.codec) none .done
      make := fun (rejections, _) => .infeasible rejections
      fields? := fun
        | .infeasible rejections => some (rejections, ())
        | _ => none } ]

/-- Choices: tagged with the outcome. -/
def Choice.codec : Codec Choice := .tagged "outcome" Choice.alternatives

/-- Ways of matching cells: their names. -/
def CellMatch.codec : Codec CellMatch := .named CellMatch.all CellMatch.name

/-- Options of a choice. -/
def ChoiceOptions.codec : Codec ChoiceOptions :=
  .record
    (.field "prioritize_speed" .bool none (.field "cell_match" CellMatch.codec none .done))
    (fun (fastest, cellMatch, _) => ⟨fastest, cellMatch⟩) fun o => (o.fastest, o.cellMatch, ())

/-- Accounts of insertions. -/
def Insertion.codec : Codec Insertion :=
  .record
    (.field "record_id" .string none
      (.field "resource_id" .string none
        (.field "limit" .nat32 none
          (.field "peak_concurrency" .nat32 none
            (.field "conflicted" .bool none
              (.field "newly_conflicted" (.list .string) none
                (.field "conflict_count" .nat64 none
                  (.field "revision" .nat64 none .done))))))))
    (fun (record, resource, limit, peak, conflicted, newly, count, revision, _) =>
      ⟨record, resource, limit, peak, conflicted, newly, count, revision⟩)
    fun i => (i.record, i.resource, i.limit, i.peak, i.conflicted, i.newlyConflicted,
      i.conflictCount, i.revision, ())

/-- Occupancies. -/
def Utilization.codec : Codec Utilization :=
  .record
    (.field "resource_id" .string none
      (.field "slot" Window.codec none
        (.field "occupied_fraction" .float none
          (.field "raw_fraction" .float none
            (.field "concurrent_count" .nat32 none
              (.field "is_over_capacity" .bool none .done))))))
    (fun (resource, slot, occupied, raw, concurrent, overCapacity, _) =>
      ⟨resource, slot, occupied, raw, concurrent, overCapacity⟩)
    fun u => (u.resource, u.slot, u.occupied, u.raw, u.concurrent, u.overCapacity, ())

end ShopFloor
