import Mathlib.Data.List.Basic
import ShopFloor.Event.Buffer

/-!
# Nothing is lost in silence

A buffer is used at two ends: events are emitted, and they are drained in place or received one by
one by whoever took the receiving end and may give it up again. Over every sequence of uses the
events handed out and those still waiting stand in the order of their emission, and every emitted
event is handed out, waits, was counted as dropped, or waited when the receiving end was given up.
An event is dropped exactly when the buffer is full or the receiving end is gone. Uses are carried
out one at a time. Main statements: `order_use`, `count_use`, `receiver_run`, `accounts_run`.
-/

namespace ShopFloor.EventBuffer

/-- What can be done with a buffer. -/
inductive Use where
  /-- An event comes. -/
  | emit (event : Event)
  /-- The buffer is drained in place. -/
  | drain
  /-- The receiving end is asked for. -/
  | take
  /-- The receiving end is asked for an event by the one who took it. -/
  | receive
  /-- The receiving end is given up by the one who took it. -/
  | giveUp
  deriving DecidableEq, Repr

/-- The event that comes by a use. -/
def Use.emitted? : Use → Option Event
  | emit event => some event
  | _ => none

/-- The events that come, in order. -/
def emitted (uses : List Use) : List Event := uses.filterMap Use.emitted?

/-- The buffer after a use. -/
def after (b : EventBuffer) : Use → EventBuffer
  | .emit event => b.emit event
  | .drain => b.drain.1
  | .take => b.take.1
  | .receive => b.receive.1
  | .giveUp => b.dropReceiver.1

/-- The events that a use hands out. -/
def handedOut (b : EventBuffer) : Use → List Event
  | .drain => b.drain.2
  | .receive => b.receive.2.toList
  | _ => []

/-- The events that still wait when the receiving end is given up. -/
def abandoned (b : EventBuffer) : Use → List Event
  | .giveUp => if b.dropReceiver.2 then b.waiting else []
  | _ => []

/-- The buffer after uses one after another. -/
def run (b : EventBuffer) : List Use → EventBuffer
  | [] => b
  | use :: rest => (b.after use).run rest

/-- The events that uses hand out, in order. -/
def delivered (b : EventBuffer) : List Use → List Event
  | [] => []
  | use :: rest => b.handedOut use ++ (b.after use).delivered rest

/-- The events that still wait whenever the receiving end is given up. -/
def lost (b : EventBuffer) : List Use → List Event
  | [] => []
  | use :: rest => b.abandoned use ++ (b.after use).lost rest

section Step

variable (b : EventBuffer)

/-- An event is kept behind the others, or dropped when the buffer is full or has no receiver. -/
theorem emit_eq (h : b.waiting.length ≤ b.capacity) (event : Event) :
    b.emit event =
      if b.receiver = .gone ∨ b.waiting.length = b.capacity then
        { b with dropped := b.dropped + 1 }
      else { b with waiting := b.waiting ++ [event] } := by
  have haccepts : b.accepts = true ↔ ¬(b.receiver = .gone ∨ b.waiting.length = b.capacity) := by
    rw [accepts, Bool.and_eq_true, decide_eq_true_iff, decide_eq_true_iff, not_or]
    exact and_congr_right fun _ => by omega
  unfold emit
  by_cases hfull : b.receiver = .gone ∨ b.waiting.length = b.capacity
  · rw [if_neg fun ha => haccepts.mp ha hfull, if_pos hfull]
  · rw [if_pos (haccepts.mpr hfull), if_neg hfull]

/-- The one who took the receiving end gets the oldest event, if there is one. -/
theorem receive_eq : b.receive =
    if b.receiver = .taken then ({ b with waiting := b.waiting.tail }, b.waiting.head?)
    else (b, none) := by
  obtain ⟨capacity, waiting, dropped, receiver⟩ := b
  cases receiver <;> cases waiting <;> rfl

/-- No use changes the capacity. -/
theorem capacity_after (use : Use) : (b.after use).capacity = b.capacity := by
  cases use with
  | emit event =>
    simp only [after, emit]
    split <;> rfl
  | drain =>
    simp only [after, drain]
    split <;> rfl
  | take =>
    simp only [after, take]
    split <;> rfl
  | receive =>
    simp only [after, receive_eq]
    split <;> rfl
  | giveUp =>
    simp only [after, dropReceiver]
    split <;> rfl

/-- No use makes a buffer hold more than its capacity. -/
theorem length_waiting_after (h : b.waiting.length ≤ b.capacity) (use : Use) :
    (b.after use).waiting.length ≤ b.capacity := by
  cases use with
  | emit event =>
    have hkept := length_emit_le h event
    have hcapacity := b.capacity_after (.emit event)
    simp only [after] at hcapacity ⊢
    omega
  | drain =>
    simp only [after, drain]
    split
    · exact Nat.zero_le _
    · exact h
  | take =>
    simp only [after, take]
    split <;> exact h
  | receive =>
    simp only [after, receive_eq]
    split
    · rw [List.length_tail]
      omega
    · exact h
  | giveUp =>
    simp only [after, dropReceiver]
    split
    · exact Nat.zero_le _
    · exact h

/-- What a use hands out stands before what waits after it, in the order in which the events were
waiting or came. -/
theorem order_use (use : Use) :
    (b.handedOut use ++ (b.after use).waiting).Sublist
      (b.waiting ++ use.emitted?.toList) := by
  cases use with
  | emit event =>
    simp only [handedOut, after, emit, Use.emitted?, List.nil_append, Option.toList_some]
    split
    · exact List.Sublist.refl _
    · exact List.sublist_append_left _ _
  | drain =>
    simp only [handedOut, after, drain, Use.emitted?, Option.toList_none, List.append_nil]
    split
    · rw [List.append_nil]
    · exact List.Sublist.refl _
  | take =>
    simp only [handedOut, after, take, Use.emitted?, Option.toList_none, List.append_nil,
      List.nil_append]
    split <;> exact List.Sublist.refl _
  | receive =>
    simp only [handedOut, after, receive_eq, Use.emitted?, Option.toList_none, List.append_nil]
    split
    · cases b.waiting <;> exact List.Sublist.refl _
    · exact List.Sublist.refl _
  | giveUp =>
    simp only [handedOut, after, dropReceiver, Use.emitted?, Option.toList_none, List.append_nil,
      List.nil_append]
    split
    · exact List.nil_sublist _
    · exact List.Sublist.refl _

/-- A use accounts for each event that was waiting or comes: it is handed out, abandoned, waits or
is counted as dropped. -/
theorem count_use (use : Use) :
    use.emitted?.toList.length + b.waiting.length + b.dropped =
      (b.handedOut use).length + (b.abandoned use).length + (b.after use).waiting.length +
        (b.after use).dropped := by
  cases use with
  | emit event =>
    have hkept := b.emit_accounts event
    simp only [Use.emitted?, handedOut, abandoned, after, Option.toList_some, List.length_cons,
      List.length_nil]
    omega
  | drain =>
    simp only [Use.emitted?, handedOut, abandoned, after, drain, Option.toList_none,
      List.length_nil]
    split <;> simp
  | take =>
    simp only [Use.emitted?, handedOut, abandoned, after, take, Option.toList_none,
      List.length_nil]
    split <;> simp
  | receive =>
    simp only [Use.emitted?, handedOut, abandoned, after, receive_eq, Option.toList_none,
      List.length_nil]
    split
    · cases b.waiting with
      | nil => simp
      | cons event rest =>
        simp
        omega
    · simp
  | giveUp =>
    simp only [Use.emitted?, handedOut, abandoned, after, dropReceiver, Option.toList_none,
      List.length_nil]
    split <;> simp

/-- The receiving end is handed out at most once, and given up only then. -/
theorem receiver_after (use : Use) : (b.after use).receiver =
    match b.receiver, use with
    | .held, .take => .taken
    | .taken, .giveUp => .gone
    | receiver, _ => receiver := by
  obtain ⟨capacity, waiting, dropped, receiver⟩ := b
  cases use with
  | emit event =>
    simp only [after, emit]
    cases receiver <;> (split <;> rfl)
  | receive => cases receiver <;> cases waiting <;> rfl
  | _ => cases receiver <;> rfl

end Step

section Run

open scoped List

variable {b : EventBuffer}

/-- No uses change the capacity. -/
theorem capacity_run (uses : List Use) : (b.run uses).capacity = b.capacity := by
  induction uses generalizing b with
  | nil => rfl
  | cons use rest ih => rw [run, ih, capacity_after]

/-- A buffer never holds more than its capacity. -/
theorem length_waiting_run (h : b.waiting.length ≤ b.capacity) (uses : List Use) :
    (b.run uses).waiting.length ≤ b.capacity := by
  induction uses generalizing b with
  | nil => exact h
  | cons use rest ih =>
    have hafter := b.length_waiting_after h use
    rw [← b.capacity_after use] at hafter ⊢
    exact ih hafter

/-- What uses hand out stands before what waits after them, in the order in which the events were
waiting or came. -/
theorem order_run (uses : List Use) :
    (b.delivered uses ++ (b.run uses).waiting).Sublist (b.waiting ++ emitted uses) := by
  induction uses generalizing b with
  | nil =>
    show b.waiting.Sublist (b.waiting ++ [])
    rw [List.append_nil]
  | cons use rest ih =>
    have hemitted : emitted (use :: rest) = use.emitted?.toList ++ emitted rest := by
      rw [emitted, List.filterMap_cons]
      cases use.emitted? <;> rfl
    calc b.handedOut use ++ (b.after use).delivered rest ++ ((b.after use).run rest).waiting
      _ = b.handedOut use ++ ((b.after use).delivered rest ++ ((b.after use).run rest).waiting) :=
        List.append_assoc _ _ _
      _ <+ b.handedOut use ++ ((b.after use).waiting ++ emitted rest) :=
        (List.append_sublist_append_left _).mpr ih
      _ = b.handedOut use ++ (b.after use).waiting ++ emitted rest := (List.append_assoc _ _ _).symm
      _ <+ b.waiting ++ use.emitted?.toList ++ emitted rest :=
        (List.append_sublist_append_right _).mpr (b.order_use use)
      _ = b.waiting ++ emitted (use :: rest) := by rw [hemitted, List.append_assoc]

/-- Uses account for each event that was waiting or comes. -/
theorem count_run (uses : List Use) :
    (emitted uses).length + b.waiting.length + b.dropped =
      (b.delivered uses).length + (b.lost uses).length + (b.run uses).waiting.length +
        (b.run uses).dropped := by
  induction uses generalizing b with
  | nil => simp [emitted, delivered, lost, run]
  | cons use rest ih =>
    have hemitted : (emitted (use :: rest)).length =
        use.emitted?.toList.length + (emitted rest).length := by
      rw [emitted, List.filterMap_cons, emitted]
      cases use.emitted? with
      | none => simp
      | some event =>
        simp
        omega
    have hfirst := b.count_use use
    have hrest := ih (b := b.after use)
    simp only [delivered, lost, run, List.length_append, hemitted]
    omega

/-- The receiving end is with the buffer as long as it was not asked for. -/
theorem held_run_iff (uses : List Use) :
    (b.run uses).receiver = .held ↔ b.receiver = .held ∧ .take ∉ uses := by
  induction uses generalizing b with
  | nil => simp [run]
  | cons use rest ih =>
    rw [run, ih, receiver_after]
    cases b.receiver <;> cases use <;> simp

/-- The receiving end is gone when it was, or when the one who had it or took it gave it up. -/
theorem gone_run_iff (uses : List Use) :
    (b.run uses).receiver = .gone ↔ b.receiver = .gone ∨
      b.receiver = .taken ∧ .giveUp ∈ uses ∨
      b.receiver = .held ∧ [.take, .giveUp].Sublist uses := by
  induction uses generalizing b with
  | nil => simp [run]
  | cons use rest ih =>
    have hlast (h : [.take, .giveUp] <+ rest) : .giveUp ∈ rest := h.subset (by simp)
    rw [run, ih, receiver_after, List.cons_sublist_cons', List.singleton_sublist]
    cases b.receiver <;> cases use <;> simp
    exact hlast

/-- Events are abandoned only when the receiving end is given up, and then it is gone for good. -/
theorem lost_eq_nil (uses : List Use) (h : (b.run uses).receiver ≠ .gone) : b.lost uses = [] := by
  induction uses generalizing b with
  | nil => rfl
  | cons use rest ih =>
    have hstays : (b.after use).receiver ≠ .gone := fun hgone =>
      h ((gone_run_iff rest).mpr (.inl hgone))
    have hkept : b.abandoned use = [] := by
      cases use with
      | giveUp =>
        rw [receiver_after] at hstays
        rw [abandoned, dropReceiver]
        cases hreceiver : b.receiver with
        | taken =>
          rw [hreceiver] at hstays
          exact absurd rfl hstays
        | _ => rfl
      | _ => rfl
    rw [lost, hkept, ih h, List.append_nil]

end Run

/-- What the uses of a new buffer tell about it, together with the events that they handed out and
those that they lost. -/
structure Accounts (capacity : Nat) (uses : List Use) (handed lost : List Event)
    (b : EventBuffer) : Prop where
  /-- What was handed out and what still waits were emitted in this order. -/
  order : (handed ++ b.waiting).Sublist (emitted uses)
  /-- Every emitted event was handed out or lost, waits or was dropped. -/
  count : (emitted uses).length = handed.length + lost.length + b.waiting.length + b.dropped
  /-- None is lost unless the receiving end was taken and given up. -/
  lost_eq_nil (hkept : ¬[.take, .giveUp].Sublist uses) : lost = []
  /-- No more wait than the capacity. -/
  room : b.waiting.length ≤ capacity
  /-- An event that comes is dropped if the receiving end is gone or as many wait, and else waits
  behind the others. -/
  emit_eq (event : Event) : b.emit event =
    if [.take, .giveUp].Sublist uses ∨ b.waiting.length = capacity then
      { b with dropped := b.dropped + 1 }
    else { b with waiting := b.waiting ++ [event] }
  /-- Draining in place hands out all that waits, and nothing once the receiving end is taken. -/
  drain_eq : b.drain = if .take ∈ uses then (b, []) else ({ b with waiting := [] }, b.waiting)
  /-- The receiving end is handed out if it was not asked for before. -/
  take_iff : b.take.2 = true ↔ .take ∉ uses
  /-- The one who took the receiving end gets the oldest event that waits, until it is given up. -/
  receive_eq : b.receive =
    if .take ∈ uses ∧ ¬[.take, .giveUp].Sublist uses then
      ({ b with waiting := b.waiting.tail }, b.waiting.head?)
    else (b, none)

/-- Over every sequence of uses of a new buffer. What was handed out and what still waits were
emitted in this order, and the emitted events are as many as were handed out, lost, wait and were
dropped. None is lost unless the receiving end was taken and given up. No more wait than the
capacity. An event that comes now is dropped exactly when as many wait or the receiving end is gone,
and else waits behind the others. Draining in place hands out all that waits until the receiving end
is taken, and nothing from then on; it is taken once, and the one who took it gets the oldest event
that waits until it is given up. -/
theorem accounts_run (capacity : Nat) (uses : List Use) :
    let start := ofCapacity capacity
    Accounts capacity uses (start.delivered uses) (start.lost uses) (start.run uses) := by
  intro start
  have hheld : (start.run uses).receiver = .held ↔ .take ∉ uses := by
    rw [held_run_iff]
    exact and_iff_right rfl
  have hgone : (start.run uses).receiver = .gone ↔ [.take, .giveUp].Sublist uses := by
    rw [gone_run_iff]
    simp [start, ofCapacity]
  have htaken : (start.run uses).receiver = .taken ↔
      .take ∈ uses ∧ ¬[.take, .giveUp].Sublist uses := by
    rw [← hgone, ← not_not (a := .take ∈ uses), ← hheld]
    cases (start.run uses).receiver <;> simp
  have hcapacity : (start.run uses).capacity = capacity := capacity_run uses
  have hroom : (start.run uses).waiting.length ≤ capacity := length_waiting_run (Nat.zero_le _) uses
  exact {
    order := order_run uses
    count := count_run (b := start) uses
    lost_eq_nil := fun hkept => EventBuffer.lost_eq_nil uses (mt hgone.mp hkept)
    room := hroom
    emit_eq := fun event => by
      rw [EventBuffer.emit_eq _ (by omega), hcapacity]
      exact if_congr (or_congr_left hgone) rfl rfl
    drain_eq := by
      rw [drain, ← ite_not]
      exact if_congr (not_iff_comm.mp hheld.symm) rfl rfl
    take_iff := by
      rw [take, ← hheld]
      split <;> simp_all
    receive_eq := by
      rw [EventBuffer.receive_eq]
      exact if_congr htaken rfl rfl }

/-- An event that is told apart by a number, as an example. -/
def numbered (n : Nat) : Event := .variantInfeasible "cut" n 0 60000

/-- Four events, drained in place before the receiving end is taken, received one by one after. -/
def briefUses : List Use :=
  [.emit (numbered 1), .emit (numbered 2), .drain, .emit (numbered 3), .take, .drain,
    .emit (numbered 4), .receive]

/-- In a buffer for one event every second one is dropped, and nothing is lost as the receiving end
is kept. -/
theorem accounts_run_brief :
    ¬[.take, .giveUp].Sublist briefUses ∧ (ofCapacity 1).lost briefUses = [] ∧
      (ofCapacity 1).delivered briefUses = [numbered 1, numbered 3] ∧
      ((ofCapacity 1).run briefUses).dropped = 2 := by
  have hkept : ¬[.take, .giveUp].Sublist briefUses := by decide
  exact ⟨hkept, (accounts_run 1 briefUses).lost_eq_nil hkept, by decide, by decide⟩

end ShopFloor.EventBuffer
