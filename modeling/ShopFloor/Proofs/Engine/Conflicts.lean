import Mathlib
import ShopFloor.Proofs.Engine.Events

/-!
# What a conflict event tells

An engine reports an insertion if it left records in conflict. Over the limit, that is the new
record and all it is in the way of. Within the limit nothing is flagged, but a record that comes in
conflicted is stored so and is reported all the same, alone and with a peak that need not be over
the limit. So a conflict event tells of a limit that is exceeded, or of a record that came in
conflicted, and every insertion over the limit is told of. Main statements:
`Deed.Answered.event?_eq`, `Sound.answered_history`, `conflicts_told`, `conflict_told_within_limit`.
-/

namespace ShopFloor.Engine

open Ledger (pressOrder)

/-- Whether a deed is an answer of the ledger, if it stored a record: the insertion was answered by
a ledger whose index agrees with its books. -/
def Deed.Answered : Deed → Prop
  | .stored record insertion before after => before.Consistent ∧
      ∃ limits expected, before.insert limits record expected = (after, .ok insertion)
  | .chose .. => True
  | .moved _ => True
  | .removed _ => True

/-- The event of a stored record: over the limit it names the record and those newly flagged, and
within the limit it names a record that came in conflicted. -/
theorem Deed.Answered.event?_eq {record : Record} {insertion : Insertion} {before after : Ledger}
    (h : (Deed.stored record insertion before after).Answered) :
    (Deed.stored record insertion before after).event? =
      if insertion.limit < insertion.peak then
        some (.conflictDetected record.resource record.id (record.id :: insertion.newlyConflicted)
          insertion.peak insertion.limit)
      else if record.status = .conflicted then
        some (.conflictDetected record.resource record.id [record.id] insertion.peak
          insertion.limit)
      else none := by
  obtain ⟨hconsistent, limits, expected, hinsert⟩ := h
  have hafter : (before.insert limits record expected).1 = after := by rw [hinsert]
  have hanswer : (before.insert limits record expected).2 = .ok insertion := by rw [hinsert]
  rw [← hafter, event?_stored hconsistent hanswer]
  obtain ⟨-, -, rfl, -⟩ := Ledger.storing_of_answered hanswer
  by_cases hover : limits.capacity record.resource <
      Book.peakWith (before.book record.resource).records record
  · simp [conflictEvent?, Insertion.affected, Book.insertion, hover]
  · by_cases hcame : record.status = .conflicted <;>
      simp [conflictEvent?, Insertion.affected, Book.insertion, Record.isConflicted, hover, hcame]

/-- What was done is what was answered. -/
theorem mem_done_iff {α : Type} {answer : Except Fault α} {deed : α → Deed} {other : Deed} :
    other ∈ done answer deed ↔ ∃ value, answer = .ok value ∧ other = deed value := by
  cases answer <;> simp [done]

namespace Sound

variable {engine : Engine} (h : engine.Sound)

include h

/-- An insertion stores what the ledger answers. -/
theorem answered_insert (limits : Limits) (record : Record) (expected : Option Nat) :
    ∀ deed ∈ engine.doneAdding record
      (engine.reported (engine.ledger.insert limits record expected)), deed.Answered := by
  intro deed hdeed
  rw [reported_eq, doneAdding] at hdeed
  obtain ⟨insertion, hanswer, rfl⟩ := mem_done_iff.mp hdeed
  exact ⟨h.ledger, limits, expected, Prod.ext rfl hanswer⟩

/-- Insertions in turn store what the ledger answers. -/
theorem answered_insertions (records : List Record) :
    ∀ deed ∈ engine.insertions records, deed.Answered := by
  induction records generalizing engine with
  | nil => exact List.forall_mem_nil _
  | cons record rest ih =>
    have hfirst := h.answered_insert engine.limits record none
    have hnext : (engine.add record).1.Sound := h.insert engine.limits record none
    rw [insertions]
    cases hanswer : (engine.add record).2 with
    | error fault => exact List.forall_mem_nil _
    | ok insertion =>
      refine List.forall_mem_cons.mpr ⟨?_, ih hnext⟩
      exact hfirst _ (mem_done_iff.mpr ⟨insertion, hanswer, rfl⟩)

/-- Every request stores what the ledger answers. -/
theorem answered_deeds (request : Request) : ∀ deed ∈ engine.deeds request, deed.Answered := by
  intro deed hdeed
  cases request with
  | select task w pool options =>
    obtain ⟨choice, -, rfl⟩ := mem_done_iff.mp hdeed
    trivial
  | selectRegistered task w =>
    obtain ⟨choice, -, rfl⟩ := mem_done_iff.mp hdeed
    trivial
  | add record => exact h.answered_insert engine.limits record none deed hdeed
  | addExpecting record revision =>
    exact h.answered_insert engine.limits record (some revision) deed hdeed
  | transition id next =>
    obtain ⟨record, -, rfl⟩ := mem_done_iff.mp hdeed
    trivial
  | remove id =>
    obtain ⟨record, -, rfl⟩ := mem_done_iff.mp hdeed
    trivial
  | decode text => exact absurd hdeed List.not_mem_nil
  | load text =>
    rw [deeds] at hdeed
    split at hdeed
    next => exact absurd hdeed List.not_mem_nil
    next records _ => exact h.answered_insertions records deed hdeed

/-- A run stores what the ledger answers. -/
theorem answered_history (requests : List Request) :
    ∀ deed ∈ engine.history requests, deed.Answered := by
  induction requests generalizing engine with
  | nil => exact List.forall_mem_nil _
  | cons request rest ih =>
    rw [history]
    exact List.forall_mem_append.mpr ⟨h.answered_deeds request, ih (h.step request)⟩

end Sound

/-- The event of an answered deed is a conflict only if a record was stored over the limit, or came
in conflicted. -/
theorem Deed.Answered.of_conflictDetected {deed : Deed} (h : deed.Answered)
    {resource id : String} {affected : List String} {peak limit : Nat}
    (hevent : deed.event? = some (.conflictDetected resource id affected peak limit)) :
    ∃ record insertion before after, deed = .stored record insertion before after ∧
      record.resource = resource ∧ record.id = id ∧ insertion.peak = peak ∧
      insertion.limit = limit ∧
      (limit < peak ∨ record.status = .conflicted ∧ affected = [id]) := by
  cases deed with
  | chose task w choice => cases choice <;> cases hevent
  | moved record => cases hevent
  | removed record => cases hevent
  | stored record insertion before after =>
    rw [h.event?_eq] at hevent
    split at hevent
    next hover =>
      cases hevent
      exact ⟨record, insertion, before, after, rfl, rfl, rfl, rfl, rfl, .inl hover⟩
    next =>
      split at hevent
      next hcame =>
        cases hevent
        exact ⟨record, insertion, before, after, rfl, rfl, rfl, rfl, rfl, .inr ⟨hcame, rfl⟩⟩
      next => cases hevent

/-- For every engine there can be and all requests, records inserted singly and in bulk: the outlet
was handed the events of what was done. Each conflict event among them tells of a stored record,
with the peak and the limit of its insertion. The peak is over the limit, unless the record came in
conflicted and is the only one that is named. Every insertion with a peak over the limit has its
event, which names the record first and then those newly flagged. -/
theorem conflicts_told {engine : Engine} (h : engine.Reachable) (requests : List Request) :
    let deeds := engine.history requests
    let told := deeds.filterMap Deed.event?
    (engine.run requests).outlet = told.foldl Outlet.emit engine.outlet ∧
    (∀ resource id affected peak limit,
      .conflictDetected resource id affected peak limit ∈ told →
        ∃ record insertion before after, .stored record insertion before after ∈ deeds ∧
          record.resource = resource ∧ record.id = id ∧ insertion.peak = peak ∧
          insertion.limit = limit ∧
          (limit < peak ∨ record.status = .conflicted ∧ affected = [id])) ∧
    ∀ record insertion before after, .stored record insertion before after ∈ deeds →
      insertion.limit < insertion.peak →
        .conflictDetected record.resource record.id (record.id :: insertion.newlyConflicted)
          insertion.peak insertion.limit ∈ told := by
  intro deeds told
  have hanswered := h.sound.answered_history requests
  refine ⟨(h.sound.tells_run requests).outlet, fun resource id affected peak limit htold => ?_,
    fun record insertion before after hdeed hover => ?_⟩
  · obtain ⟨deed, hdeed, hevent⟩ := List.mem_filterMap.mp htold
    obtain ⟨record, insertion, before, after, rfl, hmeaning⟩ :=
      (hanswered deed hdeed).of_conflictDetected hevent
    exact ⟨record, insertion, before, after, hdeed, hmeaning⟩
  · refine List.mem_filterMap.mpr ⟨_, hdeed, ?_⟩
    rw [(hanswered _ hdeed).event?_eq, if_pos hover]

/-- An order for the press that comes in conflicted, and one that comes in behind it. -/
def strainedRequests : List Request :=
  [.add ((pressOrder "a").withStatus .conflicted), .add (pressOrder "b")]

/-- The first order is told of alone and within the limit, since it came in conflicted; the second
one is over the limit. -/
theorem conflicts_told_press :
    (pressEngine.run strainedRequests).outlet =
        .journal [.conflictDetected "press" "a" ["a"] 1 1,
          .conflictDetected "press" "b" ["b"] 2 1] ∧
      ∃ record insertion before after,
        .stored record insertion before after ∈ pressEngine.history strainedRequests ∧
          record.id = "a" ∧ record.status = .conflicted := by
  have htold : (pressEngine.history strainedRequests).filterMap Deed.event? =
      [.conflictDetected "press" "a" ["a"] 1 1, .conflictDetected "press" "b" ["b"] 2 1] := by cbv
  obtain ⟨houtlet, hmeaning, -⟩ := conflicts_told reachable_pressEngine strainedRequests
  rw [htold] at houtlet hmeaning
  obtain ⟨record, insertion, before, after, hdeed, -, hid, -, -, hcause⟩ :=
    hmeaning "press" "a" ["a"] 1 1 List.mem_cons_self
  exact ⟨houtlet, record, insertion, before, after, hdeed, hid, by simpa using hcause⟩

/-- A conflict event may be handed to the outlet where the peak is within the limit: a record that
comes in conflicted is told of whatever else is open. -/
theorem conflict_told_within_limit :
    ¬ ∀ engine : Engine, engine.Reachable → ∀ requests told, engine.outlet = .journal [] →
      (engine.run requests).outlet = .journal told →
      ∀ resource id affected peak limit,
        .conflictDetected resource id affected peak limit ∈ told → limit < peak := by
  intro hall
  have hrun : (pressEngine.run [.add ((pressOrder "a").withStatus .conflicted)]).outlet =
      .journal [.conflictDetected "press" "a" ["a"] 1 1] := by cbv
  have hover := hall pressEngine reachable_pressEngine _ _ rfl hrun _ _ _ _ _
    List.mem_cons_self
  exact absurd hover (by decide)

end ShopFloor.Engine
