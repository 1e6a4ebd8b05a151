import ShopFloor.Ledger.Queries
import ShopFloor.Proofs.Ledger.Book

/-!
# Runs of the ledger

A run carries out calls one after another, refused or not, each under the limits in force at that
time. Whatever order the requests of several clients arrive in, they form one such list. `Effect`
says once what a call can do to the ledger and under which conditions; every property of runs is
proved over its four cases. Main statements: `step_effect`, `run_induction`.
-/

namespace ShopFloor

/-- The limit of a resource as it is declared, zero included. -/
def Limits.capacity (limits : Limits) (resource : String) : Nat :=
  (limits.declared resource).getD limits.fallback

/-- A limit is found exactly when the declared one is positive, and it is that one. -/
theorem Limits.of_eq_ok_iff {limits : Limits} {resource : String} {limit : Nat} :
    limits.of resource = .ok limit ↔ limits.capacity resource = limit ∧ 1 ≤ limit := by
  unfold Limits.of Limits.capacity
  split
  next hzero =>
    rw [hzero]
    simp only [reduceCtorEq, false_iff]
    omega
  next positive hpositive =>
    rw [hpositive]
    simp only [Except.ok.injEq]
    omega

/-- A limit is refused for being zero and for nothing else. -/
theorem Limits.of_eq_error_iff {limits : Limits} {resource : String} {fault : Fault} :
    limits.of resource = .error fault ↔
      limits.capacity resource = 0 ∧ fault = .invalidCapacity resource 0 := by
  unfold Limits.of Limits.capacity
  split
  next hzero => simp [hzero, eq_comm]
  next positive hpositive => simp [hpositive]

/-- A request that changes the ledger. -/
inductive Request where
  /-- Insert a record. -/
  | add (record : Record)
  /-- Insert a record if its book is at a revision. -/
  | addExpecting (record : Record) (revision : Nat)
  /-- Move the record with an id to a stage. -/
  | transition (id : String) (next : Status)
  /-- Take out the record with an id. -/
  | remove (id : String)
  deriving DecidableEq, Repr

/-- The request that inserts a record, at an expected revision if there is one. -/
def Request.inserting (record : Record) : Option Nat → Request
  | none => .add record
  | some revision => .addExpecting record revision

/-- A request and the limits in force when it is carried out. -/
structure Call where
  /-- The limits of resources at that time. -/
  limits : Limits
  /-- What is asked for. -/
  request : Request

/-- The answer to a request that is not refused. -/
inductive Answer where
  /-- A record was inserted. -/
  | inserted (insertion : Insertion)
  /-- A record moved and is now as given. -/
  | moved (record : Record)
  /-- A record was taken out. -/
  | removed (record : Record)
  deriving DecidableEq, Repr

/-- The resource whose record a request changed. -/
def Answer.resource : Answer → String
  | .inserted insertion => insertion.resource
  | .moved record => record.resource
  | .removed record => record.resource

namespace Ledger

/-- The ledger after a call, and the answer to it. -/
def step (ledger : Ledger) (call : Call) : Ledger × Except Fault Answer :=
  match call.request with
  | .add record => (ledger.add call.limits record).map id (·.map .inserted)
  | .addExpecting record revision =>
    (ledger.addExpecting call.limits record revision).map id (·.map .inserted)
  | .transition stored next => (ledger.transition call.limits stored next).map id (·.map .moved)
  | .remove stored => (ledger.remove stored).map id (·.map .removed)

/-- The ledger after calls one after another. -/
def run (ledger : Ledger) : List Call → Ledger
  | [] => ledger
  | call :: rest => (ledger.step call).1.run rest

/-- The calls of a run with their answers. -/
def log (ledger : Ledger) : List Call → List (Call × Except Fault Answer)
  | [] => []
  | call :: rest => (call, (ledger.step call).2) :: (ledger.step call).1.log rest

/-- What holds at the start of a run and is kept by each of its calls holds at its end. -/
theorem run_induction {P : Ledger → Prop} {calls : List Call} {ledger : Ledger} (hstart : P ledger)
    (hstep : ∀ ledger, ∀ call ∈ calls, P ledger → P (ledger.step call).1) :
    P (ledger.run calls) := by
  induction calls generalizing ledger with
  | nil => exact hstart
  | cons call rest ih =>
    have hnext := hstep ledger call List.mem_cons_self hstart
    exact ih hnext fun l c hc => hstep l c (List.mem_cons_of_mem call hc)

/-- Two ledgers show the same books and the same index. A book without records or changes may be
open in one of them only. -/
structure Alike (a b : Ledger) : Prop where
  /-- Every resource has the same book. -/
  book : ∀ resource, b.book resource = a.book resource
  /-- Every id has the same resource. -/
  index : b.index = a.index

/-- The ledger with a record stored at its resource, given the limit. -/
def storing (ledger : Ledger) (limit : Nat) (record : Record) : Ledger :=
  { ledger.withBook record.resource ((ledger.book record.resource).add limit record) with
    index := ledger.index.insert record.id record.resource }

/-- The ledger with a record of a resource at another stage. -/
def moving (ledger : Ledger) (resource id : String) (next : Status) : Ledger :=
  ledger.withBook resource ((ledger.book resource).setStatus id next)

/-- The ledger without a record of a resource. -/
def dropping (ledger : Ledger) (resource id : String) : Ledger :=
  { ledger.withBook resource ((ledger.book resource).remove id) with
    index := ledger.index.erase id }

section Views

variable (ledger : Ledger) (limit : Nat) (record : Record) (resource id other : String)
  (next : Status)

@[simp] theorem book_storing : (ledger.storing limit record).book other =
    if other = record.resource then (ledger.book record.resource).add limit record
    else ledger.book other :=
  book_withBook ledger record.resource other _

@[simp] theorem index_storing :
    (ledger.storing limit record).index = ledger.index.insert record.id record.resource := rfl

@[simp] theorem book_moving : (ledger.moving resource id next).book other =
    if other = resource then (ledger.book resource).setStatus id next else ledger.book other :=
  book_withBook ledger resource other _

@[simp] theorem index_moving : (ledger.moving resource id next).index = ledger.index := rfl

@[simp] theorem book_dropping : (ledger.dropping resource id).book other =
    if other = resource then (ledger.book resource).remove id else ledger.book other :=
  book_withBook ledger resource other _

@[simp] theorem index_dropping :
    (ledger.dropping resource id).index = ledger.index.erase id := rfl

end Views

/-- What a call does to a ledger: it is refused without a trace, or it stores, moves or takes out
one record, each under all the conditions that were checked. -/
inductive Effect (ledger : Ledger) (call : Call) : Ledger → Except Fault Answer → Prop
  /-- Nothing that shows has changed. -/
  | refused {next : Ledger} {fault : Fault} (halike : ledger.Alike next) :
      Effect ledger call next (.error fault)
  /-- A record with a new id is stored. -/
  | stored {record : Record} {expected : Option Nat} {limit : Nat}
      (hrequest : call.request = .inserting record expected)
      (hlimit : call.limits.of record.resource = .ok limit)
      (hrevision : ∀ revision ∈ expected, revision = ledger.revision record.resource)
      (hfresh : ledger.index.get? record.id = none) :
      Effect ledger call (ledger.storing limit record)
        (.ok (.inserted ((ledger.book record.resource).insertion limit record)))
  /-- A stored record moves along the lifecycle. -/
  | moved {id resource : String} {next : Status} {record : Record} {limit : Nat}
      (hrequest : call.request = .transition id next)
      (hindex : ledger.index.get? id = some resource)
      (hlimit : call.limits.of resource = .ok limit)
      (hfind : (ledger.book resource).find? id = some record)
      (hstage : record.status.canBecome next = true)
      (hcrowd : record.isConflicted = true → ledger.stillCrowded resource limit record = false) :
      Effect ledger call (ledger.moving resource id next) (.ok (.moved (record.withStatus next)))
  /-- A stored record that is not completed is taken out. -/
  | removed {id resource : String} {record : Record}
      (hrequest : call.request = .remove id)
      (hindex : ledger.index.get? id = some resource)
      (hfind : (ledger.book resource).find? id = some record)
      (hstatus : record.status ≠ .completed) :
      Effect ledger call (ledger.dropping resource id) (.ok (.removed record))

/-- A ledger is like itself. -/
theorem Alike.refl (ledger : Ledger) : ledger.Alike ledger := ⟨fun _ => rfl, rfl⟩

/-- A call that is refused leaves a ledger like the one it found. -/
theorem Effect.alike {ledger next : Ledger} {call : Call} {fault : Fault}
    (h : Effect ledger call next (.error fault)) : ledger.Alike next := by
  cases h with
  | refused halike => exact halike

/-- Opening the book of a resource does not show. -/
theorem alike_withBook (ledger : Ledger) (resource : String) :
    ledger.Alike (ledger.withBook resource (ledger.book resource)) := by
  refine ⟨fun other => ?_, rfl⟩
  rw [book_withBook]
  split
  next h => rw [h]
  next => rfl

/-- An insertion with a positive limit is admitted exactly at an expected revision, if there is one,
and under a new id. -/
theorem refusal?_eq_none_iff {ledger : Ledger} {record : Record} {expected : Option Nat} :
    ledger.refusal? record expected = none ↔
      (∀ revision ∈ expected, revision = ledger.revision record.resource) ∧
        ledger.index.get? record.id = none := by
  have hstale : expected.filter (· ≠ (ledger.book record.resource).revision) = none ↔
      ∀ revision ∈ expected, revision = ledger.revision record.resource := by
    simp [Option.filter_eq_none_iff, revision]
  unfold refusal?
  dsimp only
  split
  next other hother =>
    have hne := mt hstale.mpr (by rw [hother]; exact Option.some_ne_none other)
    simp only [reduceCtorEq, false_iff]
    exact fun h => hne h.1
  next hnone =>
    rw [iff_true_intro (hstale.mp hnone), true_and, NameMap.contains]
    cases ledger.index.get? record.id <;> simp

/-- The record of an id is located through the index, in the book of its resource. -/
theorem locate_eq_ok_iff {ledger : Ledger} {id resource : String} {record : Record} :
    ledger.locate id = .ok (resource, record) ↔
      ledger.index.get? id = some resource ∧ (ledger.book resource).find? id = some record := by
  unfold locate
  split
  next hindex => simp [hindex]
  next owner hindex =>
    rw [hindex]
    split
    next hfind =>
      simp only [reduceCtorEq, Option.some.injEq, false_iff]
      intro h
      have hsome := h.2
      rw [← h.1, hfind] at hsome
      cases hsome
    next other hfind =>
      simp only [Except.ok.injEq, Prod.mk.injEq, Option.some.injEq]
      refine and_congr_right fun howner => ?_
      rw [← howner, hfind, Option.some.injEq]

/-- The record looked up under an id is the one in the book that the index leads to. -/
theorem get?_eq_some_iff_find? {ledger : Ledger} {id : String} {record : Record} :
    ledger.get? id = some record ↔ ∃ resource, ledger.index.get? id = some resource ∧
      (ledger.book resource).find? id = some record := by
  simp only [← locate_eq_ok_iff]
  rw [get?]
  split
  next hfound => simp [hfound]
  next hfault => simp [hfault]

/-- What a move is refused for once its record and limit are found: the lifecycle first, then a
conflict that remains. -/
theorem admitTransition_of_found {ledger : Ledger} {limits : Limits} {id resource : String}
    {record : Record} {limit : Nat} (next : Status)
    (hindex : ledger.index.get? id = some resource) (hlimit : limits.of resource = .ok limit)
    (hfind : (ledger.book resource).find? id = some record) :
    ledger.admitTransition limits id next =
      if !record.status.canBecome next then .error (.illegalTransition id record.status next)
      else if record.isConflicted && ledger.stillCrowded resource limit record then
        .error (.unresolvedConflict id resource)
      else .ok (resource, record) := by
  have hlocate := locate_eq_ok_iff.mpr ⟨hindex, hfind⟩
  simp only [admitTransition, hindex, hlimit, hlocate, bind, Except.bind]

/-- A move is admitted exactly when the record is found, the limit of its resource is positive, the
lifecycle leads to the stage, and a conflicted record is within the limit. -/
theorem admitTransition_eq_ok_iff {ledger : Ledger} {limits : Limits} {id resource : String}
    {next : Status} {record : Record} :
    ledger.admitTransition limits id next = .ok (resource, record) ↔
      ∃ limit, ledger.index.get? id = some resource ∧ limits.of resource = .ok limit ∧
        (ledger.book resource).find? id = some record ∧ record.status.canBecome next = true ∧
        (record.isConflicted = true → ledger.stillCrowded resource limit record = false) := by
  constructor
  · intro h
    have hadmitted := h
    unfold admitTransition at h
    split at h
    next => cases h
    next owner hindex =>
      cases hlimit : limits.of owner with
      | error fault => simp [hlimit, bind, Except.bind] at h
      | ok limit =>
        cases hlocate : ledger.locate id with
        | error fault => simp [hlimit, hlocate, bind, Except.bind] at h
        | ok found =>
          obtain ⟨place, other⟩ := found
          obtain ⟨hplace, hfind⟩ := locate_eq_ok_iff.mp hlocate
          cases hindex.symm.trans hplace
          rw [admitTransition_of_found next hplace hlimit hfind] at hadmitted
          split at hadmitted
          next => cases hadmitted
          next hstage =>
            split at hadmitted
            next => cases hadmitted
            next hcrowd =>
              cases hadmitted
              exact ⟨limit, hplace, hlimit, hfind, by simpa using hstage, by simpa using hcrowd⟩
  · intro h
    obtain ⟨limit, hindex, hlimit, hfind, hstage, hcrowd⟩ := h
    rw [admitTransition_of_found next hindex hlimit hfind, if_neg (by simp [hstage]),
      if_neg (by simpa using hcrowd)]

variable (ledger : Ledger) (limits : Limits)

/-- What an insertion does. -/
theorem insert_effect (record : Record) (expected : Option Nat) :
    Effect ledger ⟨limits, .inserting record expected⟩ (ledger.insert limits record expected).1
      ((ledger.insert limits record expected).2.map .inserted) := by
  unfold insert
  split
  next => exact .refused (.refl ledger)
  next limit hlimit =>
    dsimp only
    split
    next => exact .refused (alike_withBook ledger record.resource)
    next hadmitted =>
      obtain ⟨hrevision, hfresh⟩ := refusal?_eq_none_iff.mp hadmitted
      exact .stored rfl hlimit hrevision hfresh

/-- What a move along the lifecycle does. -/
theorem transition_effect (id : String) (next : Status) :
    Effect ledger ⟨limits, .transition id next⟩ (ledger.transition limits id next).1
      ((ledger.transition limits id next).2.map .moved) := by
  unfold transition
  split
  next => exact .refused (.refl ledger)
  next hadmitted =>
    obtain ⟨limit, hindex, hlimit, hfind, hstage, hcrowd⟩ := admitTransition_eq_ok_iff.mp hadmitted
    exact .moved rfl hindex hlimit hfind hstage hcrowd

/-- What a removal does. -/
theorem remove_effect (id : String) :
    Effect ledger ⟨limits, .remove id⟩ (ledger.remove id).1
      ((ledger.remove id).2.map .removed) := by
  unfold remove
  split
  next => exact .refused (.refl ledger)
  next hlocate =>
    obtain ⟨hindex, hfind⟩ := locate_eq_ok_iff.mp hlocate
    split
    next => exact .refused (.refl ledger)
    next hstatus => exact .removed rfl hindex hfind hstatus

/-- Every call does what its effect says. -/
theorem step_effect (call : Call) :
    Effect ledger call (ledger.step call).1 (ledger.step call).2 := by
  obtain ⟨limits, request⟩ := call
  cases request with
  | add record => exact insert_effect ledger limits record none
  | addExpecting record revision => exact insert_effect ledger limits record (some revision)
  | transition id next => exact transition_effect ledger limits id next
  | remove id => exact remove_effect ledger limits id

/-- A press that carries one order at a time, as an example. -/
def pressLimits : Limits := ⟨fun _ => none, 1⟩

/-- An order that holds the press in the first minute. -/
def pressOrder (id : String) : Record :=
  ⟨id, "press", ⟨0, 60000, by decide, by decide, by decide⟩, "order", .planned⟩

/-- Two orders for the press at once. -/
def pressRequests : List Request := [.add (pressOrder "a"), .add (pressOrder "b")]

/-- The two orders under the limit of the press. -/
def pressCalls : List Call := pressRequests.map (Call.mk pressLimits)

end Ledger

end ShopFloor
