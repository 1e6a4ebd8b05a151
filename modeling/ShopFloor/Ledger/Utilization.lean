import ShopFloor.Ledger.Basic
import ShopFloor.Window.Split

/-!
# Occupancy of resources

How much of a window a resource is booked, as a fraction of the window times a number of capacity
units, and how many records occupy it at once at most. Booked time counts every record, completed
ones included; the peak counts only those that occupy, as conflicts do.
-/

namespace ShopFloor

/-- The occupancy of a resource over a window. -/
structure Utilization where
  /-- The resource. -/
  resource : String
  /-- The window. -/
  slot : Window
  /-- The booked fraction of the window, kept between zero and one. -/
  occupied : Float
  /-- The booked fraction of the window as it is. -/
  raw : Float
  /-- The most records that occupy the resource at once. -/
  concurrent : Nat
  /-- Whether that is over the limit of the resource. -/
  overCapacity : Bool

namespace Ledger

/-- The booked time of a resource in a window, record by record. -/
def booked (ledger : Ledger) (resource : String) (w : Window) : Int :=
  (ledger.book resource).records.foldr (fun r total => r.interval.overlap w + total) 0

/-- The most records that occupy a resource at once in a window. -/
def concurrent (ledger : Ledger) (resource : String) (w : Window) : Nat :=
  w.peak (Book.occupied (ledger.book resource).records)

/-- A booked time as a fraction of a window times a number of capacity units. -/
def fraction (booked : Int) (w : Window) (units : Nat) : Float :=
  Float.ofInt booked / (Float.ofInt w.duration * Float.ofNat units)

/-- A fraction kept between zero and one. -/
def unitInterval (x : Float) : Float := if x < 0 then 0 else if x > 1 then 1 else x

/-- The occupancy of a resource over a window, against a positive number of capacity units. -/
def utilization (ledger : Ledger) (limits : Limits) (resource : String) (w : Window)
    (units : Nat) : Except Fault Utilization :=
  if units = 0 then .error (.invalidCapacity resource 0)
  else do
    let limit ← limits.of resource
    let raw := fraction (ledger.booked resource w) w units
    let concurrent := ledger.concurrent resource w
    return ⟨resource, w, unitInterval raw, raw, concurrent, limit < concurrent⟩

/-- The occupancy of a resource over each of several slots, against its limit. -/
def utilizationRow (ledger : Ledger) (limits : Limits) (slots : List Window)
    (resource : String) : Except Fault (List Utilization) := do
  let units ← limits.of resource
  slots.mapM fun slot => ledger.utilization limits resource slot units

/-- The occupancy of several resources over the slots of a horizon. -/
def utilizationMatrix (ledger : Ledger) (limits : Limits) (resources : List String)
    (horizon : Window) (minutes : Nat) : Except Fault (List (List Utilization)) :=
  resources.mapM (ledger.utilizationRow limits (horizon.split minutes))

end Ledger

end ShopFloor
