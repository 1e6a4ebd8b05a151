import ShopFloor.Event.Basic

/-!
# The event buffer

A buffer holds events in order, up to a capacity, and counts those it has to drop. Its receiving
end is there to be drained in place until it is handed out; then events are received one by one,
and once it is gone every event is dropped. A buffer of capacity zero holds nothing.
-/

namespace ShopFloor

/-- Where the receiving end of a buffer is. -/
inductive Receiver where
  /-- With the buffer. -/
  | held
  /-- Handed out. -/
  | taken
  /-- Given up by the one who took it. -/
  | gone
  deriving DecidableEq, Repr

/-- Events waiting to be received. -/
structure EventBuffer where
  /-- The most events held. -/
  capacity : Nat
  /-- The events held, oldest first. -/
  waiting : List Event
  /-- How many events were dropped. -/
  dropped : Nat
  /-- Where the receiving end is. -/
  receiver : Receiver
  deriving DecidableEq, Repr

namespace EventBuffer

/-- A buffer that holds nothing yet. -/
def ofCapacity (capacity : Nat) : EventBuffer := ⟨capacity, [], 0, .held⟩

/-- Whether a buffer can hold one more event. -/
def accepts (b : EventBuffer) : Bool := b.receiver ≠ .gone && b.waiting.length < b.capacity

/-- The buffer after an event has come. -/
def emit (b : EventBuffer) (event : Event) : EventBuffer :=
  if b.accepts then { b with waiting := b.waiting ++ [event] }
  else { b with dropped := b.dropped + 1 }

/-- The buffer after draining in place, and the events that were held. -/
def drain (b : EventBuffer) : EventBuffer × List Event :=
  if b.receiver = .held then ({ b with waiting := [] }, b.waiting) else (b, [])

/-- The buffer after its receiving end was asked for, and whether it was handed out. -/
def take (b : EventBuffer) : EventBuffer × Bool :=
  if b.receiver = .held then ({ b with receiver := .taken }, true) else (b, false)

/-- The buffer after the receiving end that was handed out was asked for an event. -/
def receive (b : EventBuffer) : EventBuffer × Option Event :=
  match b.receiver, b.waiting with
  | .taken, event :: rest => ({ b with waiting := rest }, some event)
  | _, _ => (b, none)

/-- The buffer after the receiving end that was handed out is given up, and whether there was
one. The events still waiting are lost with it. -/
def dropReceiver (b : EventBuffer) : EventBuffer × Bool :=
  if b.receiver = .taken then ({ b with receiver := .gone, waiting := [] }, true) else (b, false)

/-- An event is either held or counted as dropped. -/
theorem emit_accounts (b : EventBuffer) (event : Event) :
    (b.emit event).waiting.length + (b.emit event).dropped
      = b.waiting.length + b.dropped + 1 := by
  unfold emit
  split <;> simp <;> omega

/-- A buffer that holds no more than its capacity goes on to do so. -/
theorem length_emit_le {b : EventBuffer} (h : b.waiting.length ≤ b.capacity) (event : Event) :
    (b.emit event).waiting.length ≤ (b.emit event).capacity := by
  unfold emit
  split
  · next ha =>
    simp only [accepts, Bool.and_eq_true, decide_eq_true_eq] at ha
    simp
    omega
  · exact h

end EventBuffer

end ShopFloor
