import Mathlib
import ShopFloor.Ledger.Indicators
import ShopFloor.Proofs.Ledger.Coherence
import ShopFloor.Proofs.Ledger.Locality

/-!
# A refused call leaves no trace

An insertion that is refused for its revision or its id has opened the book of its resource by then,
so the ledger it leaves need not be the one it found. No query tells the two apart, and neither does
any later call: the book that was opened has no records and no changes, as one that was never
opened. The text that describes a ledger counts open books and is not among the queries here. Main
statements: `Alike.sameView`, `Alike.step`, `refusal_leaves_no_trace`.
-/

namespace ShopFloor.Ledger

/-- Every query about a resource is answered alike by two ledgers. -/
structure SameAt (resource : String) (a b : Ledger) : Prop where
  /-- The same records are listed. -/
  recordsFor : b.recordsFor resource = a.recordsFor resource
  /-- The same conflicted records are listed. -/
  conflictsFor : b.conflictsFor resource = a.conflictsFor resource
  /-- As many records are conflicted. -/
  conflictCount : b.conflictCount resource = a.conflictCount resource
  /-- The revision is the same. -/
  revision : b.revision resource = a.revision resource
  /-- The occupancy is the same over every window, whatever the limits and the capacity units. -/
  utilization : ∀ limits w units,
    b.utilization limits resource w units = a.utilization limits resource w units

/-- What is shown of a resource is read off its book. -/
theorem sameAt_of_book {resource : String} {a b : Ledger}
    (h : b.book resource = a.book resource) : SameAt resource a b where
  recordsFor := by rw [Ledger.recordsFor, Ledger.recordsFor, h]
  conflictsFor := by rw [Ledger.conflictsFor, Ledger.conflictsFor, h]
  conflictCount := by rw [Ledger.conflictCount, Ledger.conflictCount, h]
  revision := by rw [Ledger.revision, Ledger.revision, h]
  utilization limits w units := by
    have hbooked : b.booked resource w = a.booked resource w := by rw [booked, booked, h]
    have hpeak : b.concurrent resource w = a.concurrent resource w := by
      rw [concurrent, concurrent, h]
    rw [Ledger.utilization, Ledger.utilization, hbooked, hpeak]

/-- Every query is answered alike by two ledgers. -/
structure SameView (a b : Ledger) : Prop where
  /-- The same record is found under each id. -/
  get? : ∀ id, b.get? id = a.get? id
  /-- The queries about each resource are answered alike. -/
  at_resource : ∀ resource, SameAt resource a b
  /-- The same resources have records. -/
  resources : b.resources = a.resources
  /-- As many records are stored. -/
  size : b.size = a.size
  /-- Both store records, or neither does. -/
  isEmpty : b.isEmpty = a.isEmpty
  /-- As many records are at each stage. -/
  statusCounts : b.statusCounts = a.statusCounts
  /-- The occupancy of several resources over slots is the same. -/
  utilizationMatrix : ∀ limits resources horizon minutes,
    b.utilizationMatrix limits resources horizon minutes =
      a.utilizationMatrix limits resources horizon minutes
  /-- The figures over a horizon are the same. -/
  indicators : ∀ limits resources horizon minutes,
    Indicators.ofLedger b limits resources horizon minutes =
      Indicators.ofLedger a limits resources horizon minutes

namespace Alike

variable {a b : Ledger}

/-- Two ledgers are alike when they agree on all resources and all ids. -/
theorem iff_agreeOn : a.Alike b ↔ AgreeOn (fun _ => True) (fun _ => True) a b := by
  constructor
  · intro h
    exact ⟨fun resource _ => h.book resource, fun id _ => by rw [h.index]⟩
  · intro h
    exact ⟨fun resource => h.book resource trivial,
      NameMap.ext_get? fun id => h.entry id trivial⟩

/-- A record is located alike in ledgers that are alike. -/
theorem get?_eq (h : a.Alike b) (id : String) : b.get? id = a.get? id := by
  have hlocate : b.locate id = a.locate id :=
    (iff_agreeOn.mp h).locate_eq trivial fun _ _ => trivial
  rw [get?, get?, hlocate]

/-- The same resources have records. -/
theorem resources_eq (h : a.Alike b) : b.resources = a.resources := by
  refine (resources_ascending b).eq_of_mem_iff (resources_ascending a) fun resource => ?_
  rw [mem_resources_iff, mem_resources_iff, h.book]

/-- The same records are stored, in the same order. -/
theorem records_eq (h : a.Alike b) : b.records = a.records := by
  rw [records_eq_flatMap, records_eq_flatMap, h.resources_eq]
  exact congrArg (List.flatMap · a.resources) (funext fun resource => by rw [h.book])

/-- No query tells ledgers apart that are alike. -/
theorem sameView (h : a.Alike b) : SameView a b := by
  have hat : ∀ resource, SameAt resource a b := fun resource => sameAt_of_book (h.book resource)
  have hoccupancy : b.utilization = a.utilization := by
    funext limits resource w units
    exact (hat resource).utilization limits w units
  have hmatrix : b.utilizationMatrix = a.utilizationMatrix := by
    unfold utilizationMatrix utilizationRow
    rw [hoccupancy]
  refine
    { get? := h.get?_eq
      at_resource := hat
      resources := h.resources_eq
      size := by rw [size, size, h.index]
      isEmpty := by rw [isEmpty, isEmpty, h.index]
      statusCounts := ?_
      utilizationMatrix := fun _ _ _ _ => by rw [hmatrix]
      indicators := fun limits resources horizon minutes => ?_ }
  · unfold statusCounts countAt
    rw [h.records_eq]
  · have hcount : b.conflictCount = a.conflictCount := funext fun r => (hat r).conflictCount
    unfold Indicators.ofLedger Indicators.sample
    rw [hoccupancy, hmatrix, hcount]

/-- A call is answered alike by ledgers that are alike, and leaves them alike. -/
theorem step (h : a.Alike b) (call : Call) :
    (b.step call).2 = (a.step call).2 ∧ (a.step call).1.Alike (b.step call).1 := by
  obtain ⟨hanswer, hnext⟩ := (iff_agreeOn.mp h).step trivial fun _ _ => trivial
  exact ⟨hanswer, iff_agreeOn.mpr hnext⟩

/-- Calls are answered alike by ledgers that are alike, and leave them alike. -/
theorem run (h : a.Alike b) (calls : List Call) :
    b.log calls = a.log calls ∧ (a.run calls).Alike (b.run calls) := by
  induction calls generalizing a b with
  | nil => exact ⟨rfl, h⟩
  | cons call rest ih =>
    obtain ⟨hanswer, hnext⟩ := h.step call
    obtain ⟨hlog, hrest⟩ := ih hnext
    refine ⟨?_, hrest⟩
    rw [log, log, hanswer, hlog]

end Alike

/-- A refused call leaves a ledger that is like the one it found. -/
theorem alike_of_refused {ledger : Ledger} {call : Call} {fault : Fault}
    (h : (ledger.step call).2 = .error fault) : ledger.Alike (ledger.step call).1 := by
  have heffect := step_effect ledger call
  rw [h] at heffect
  generalize (ledger.step call).1 = next at heffect
  cases heffect with
  | refused halike => exact halike

/-- In every ledger that a run reaches, under whatever limits at each call: after a call that is
refused, for whatever fault, every query is answered as before it. Whatever is called later is
answered as it would be without the refused call, and every query after that as well. -/
theorem refusal_leaves_no_trace (calls : List Call) (call : Call) (fault : Fault)
    (hrefused : ((empty.run calls).step call).2 = .error fault) :
    let before := empty.run calls
    let after := (before.step call).1
    SameView before after ∧
      ∀ more, after.log more = before.log more ∧ SameView (before.run more) (after.run more) := by
  intro before after
  have halike : before.Alike after := alike_of_refused hrefused
  refine ⟨halike.sameView, fun more => ?_⟩
  obtain ⟨hlog, hnext⟩ := halike.run more
  exact ⟨hlog, hnext.sameView⟩

/-- An insertion that expects a wrong revision of the press opens its book; no query shows it, and
the order is admitted at the right revision afterwards as it is at the start. -/
theorem refusal_leaves_no_trace_press :
    let stale : Call := ⟨pressLimits, .addExpecting (pressOrder "a") 7⟩
    let right : Call := ⟨pressLimits, .addExpecting (pressOrder "a") 0⟩
    (empty.step stale).2 = .error (.concurrentModification "press" 7 0) ∧
      (empty.step stale).1 ≠ empty ∧ SameView empty (empty.step stale).1 ∧
      (empty.step stale).1.log [right] = empty.log [right] := by
  intro stale right
  have hrefused : (empty.step stale).2 = .error (.concurrentModification "press" 7 0) := by cbv
  have hopened : (empty.step stale).1 ≠ empty := by decide
  obtain ⟨hview, hlater⟩ := refusal_leaves_no_trace [] stale _ hrefused
  exact ⟨hrefused, hopened, hview, (hlater [right]).1⟩

end ShopFloor.Ledger
