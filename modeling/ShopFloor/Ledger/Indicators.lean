import ShopFloor.Ledger.Queries
import ShopFloor.Ledger.Utilization

/-!
# Indicators of a ledger

Figures that sum up a ledger over a horizon: the occupancy of each resource and its mean, the
resources that are over their limit somewhere in the horizon, the number of conflicted records, and
the number of slots that are over the limit. A resource listed twice is counted twice, except in
the mean.
-/

namespace ShopFloor

/-- The figures of a ledger over a horizon. -/
structure Indicators where
  /-- The occupied fraction of each resource. -/
  utilization : NameMap Float
  /-- The resources over their limit, ascending. -/
  overloaded : List String
  /-- How many records are conflicted. -/
  conflictCount : Nat
  /-- How many slots are over the limit of their resource. -/
  overCapacitySlots : Nat

namespace Indicators

/-- The mean of the occupied fractions, zero without any. -/
def average (i : Indicators) : Float :=
  let values := i.utilization.values
  if values.isEmpty then 0 else values.foldl (· + ·) 0 / Float.ofNat values.length

/-- Whether there are few enough conflicts and the mean is high enough. -/
def meets (i : Indicators) (maxConflicts : Nat) (minUtilization : Float) : Bool :=
  i.conflictCount ≤ maxConflicts && i.average ≥ minUtilization

/-- The occupancy of a resource over a horizon, against its limit. -/
def sample (ledger : Ledger) (limits : Limits) (horizon : Window) (resource : String) :
    Except Fault Utilization := do
  let units ← limits.of resource
  ledger.utilization limits resource horizon units

/-- The figures of several resources over a horizon with slots of some minutes. -/
def ofLedger (ledger : Ledger) (limits : Limits) (resources : List String) (horizon : Window)
    (minutes : Nat) : Except Fault Indicators := do
  let samples ← resources.mapM (sample ledger limits horizon)
  let matrix ← ledger.utilizationMatrix limits resources horizon minutes
  return {
    utilization := .ofList (samples.map fun s => (s.resource, s.occupied))
    overloaded :=
      ((samples.filter (·.overCapacity)).map (·.resource)).mergeSort fun a b => a ≤ b
    conflictCount := resources.foldr (fun r total => ledger.conflictCount r + total) 0
    overCapacitySlots := matrix.flatten.countP (·.overCapacity) }

end Indicators

end ShopFloor
