import ShopFloor.Event.Buffer

/-!
# Where events go

An engine may have no outlet for its events, one that discards them, one that writes them to a
journal, or one that buffers them for a receiver.
-/

namespace ShopFloor

/-- An outlet for events. -/
inductive Outlet where
  /-- There is none. -/
  | unset
  /-- Events are discarded. -/
  | discarding
  /-- Events are written down, oldest first. -/
  | journal (entries : List Event)
  /-- Events are buffered. -/
  | buffered (buffer : EventBuffer)
  deriving DecidableEq, Repr

namespace Outlet

/-- Whether there is an outlet. -/
def isConfigured (o : Outlet) : Bool := o ≠ .unset

/-- The outlet after an event has come. -/
def emit : Outlet → Event → Outlet
  | unset, _ => unset
  | discarding, _ => discarding
  | journal entries, event => journal (entries ++ [event])
  | buffered buffer, event => buffered (buffer.emit event)

/-- An outlet is neither set up nor taken away by an event. -/
theorem isConfigured_emit (o : Outlet) (event : Event) :
    (o.emit event).isConfigured = o.isConfigured := by
  cases o <;> simp [emit, isConfigured]

/-- The text that describes an outlet. -/
def describe (o : Outlet) : String :=
  "OptionalEventSink \x7b configured: " ++ (if o.isConfigured then "true" else "false") ++ " \x7d"

end Outlet

end ShopFloor
