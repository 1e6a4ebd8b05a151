import ShopFloor.Ledger.Book
import ShopFloor.NameMap

/-!
# The allocation ledger

The ledger keeps one book for each resource and an index from the ids of all stored records to
their resources. Four requests change it: a record is inserted, inserted on condition that the book
is at an expected revision, moved along the lifecycle, or removed. A refused request changes
nothing that a query shows; an insertion that is refused after its limit was found has opened the
book of the resource all the same. Limits are looked up at each request.
-/

namespace ShopFloor

/-- How many allocations each resource carries at once. -/
structure Limits where
  /-- The limits declared for resources. -/
  declared : String → Option Nat
  /-- The limit of a resource without a declared one. -/
  fallback : Nat

namespace Limits

/-- The limit of a resource, which must not be zero. -/
def of (limits : Limits) (resource : String) : Except Fault Nat :=
  match (limits.declared resource).getD limits.fallback with
  | 0 => .error (.invalidCapacity resource 0)
  | limit + 1 => .ok (limit + 1)

/-- A limit that is found is positive. -/
theorem pos_of_of {limits : Limits} {resource : String} {limit : Nat}
    (h : limits.of resource = .ok limit) : 0 < limit := by
  unfold of at h
  split at h
  · cases h
  · cases h
    omega

end Limits

/-- The books of all resources. -/
structure Ledger where
  /-- The book of each resource that was ever addressed by an insertion. -/
  books : NameMap Book
  /-- The resource of each stored record, by the id of the record. -/
  index : NameMap String
  deriving DecidableEq, Repr

namespace Ledger

/-- The ledger at the start. -/
def empty : Ledger := ⟨.empty, .empty⟩

/-- The book of a resource. -/
def book (ledger : Ledger) (resource : String) : Book :=
  (ledger.books.get? resource).getD .empty

/-- The ledger with the book of one resource put in place. -/
def withBook (ledger : Ledger) (resource : String) (book : Book) : Ledger :=
  { ledger with books := ledger.books.insert resource book }

/-- The book put in place is found, and the others are as before. -/
@[simp] theorem book_withBook (ledger : Ledger) (resource other : String) (b : Book) :
    (ledger.withBook resource b).book other =
      if other = resource then b else ledger.book other := by
  unfold book withBook
  rw [NameMap.get?_insert]
  split <;> rfl

/-- The fault that an expected revision or a known id is to an insertion, if any. -/
def refusal? (ledger : Ledger) (record : Record) (expected : Option Nat) : Option Fault :=
  let revision := (ledger.book record.resource).revision
  match expected.filter (· ≠ revision) with
  | some other => some (.concurrentModification record.resource other revision)
  | none =>
    if ledger.index.contains record.id then some (.duplicateRecord record.id) else none

/-- The ledger after an insertion, and the account of it or the reason of its refusal. -/
def insert (ledger : Ledger) (limits : Limits) (record : Record) (expected : Option Nat) :
    Ledger × Except Fault Insertion :=
  match limits.of record.resource with
  | .error fault => (ledger, .error fault)
  | .ok limit =>
    let book := ledger.book record.resource
    match ledger.refusal? record expected with
    | some fault => (ledger.withBook record.resource book, .error fault)
    | none =>
      ({ ledger.withBook record.resource (book.add limit record) with
          index := ledger.index.insert record.id record.resource },
        .ok (book.insertion limit record))

/-- The ledger after a record has been inserted. -/
def add (ledger : Ledger) (limits : Limits) (record : Record) :
    Ledger × Except Fault Insertion :=
  ledger.insert limits record none

/-- The ledger after a record has been inserted into a book at an expected revision. -/
def addExpecting (ledger : Ledger) (limits : Limits) (record : Record) (revision : Nat) :
    Ledger × Except Fault Insertion :=
  ledger.insert limits record (some revision)

/-- The stored record with an id, and its resource. -/
def locate (ledger : Ledger) (id : String) : Except Fault (String × Record) :=
  match ledger.index.get? id with
  | none => .error (.recordNotFound id)
  | some resource =>
    match (ledger.book resource).find? id with
    | none => .error (.recordNotFound id)
    | some record => .ok (resource, record)

/-- Whether a conflicted record has to stay so: with it, its interval is over the limit. -/
def stillCrowded (ledger : Ledger) (resource : String) (limit : Nat) (record : Record) : Bool :=
  limit < Book.peakWith ((ledger.book resource).others record.id) record

/-- The record with an id, at its resource, if it may move to a stage. -/
def admitTransition (ledger : Ledger) (limits : Limits) (id : String) (next : Status) :
    Except Fault (String × Record) :=
  match ledger.index.get? id with
  | none => .error (.recordNotFound id)
  | some owner => do
    let limit ← limits.of owner
    let (resource, record) ← ledger.locate id
    if !record.status.canBecome next then .error (.illegalTransition id record.status next)
    else if record.isConflicted && ledger.stillCrowded resource limit record then
      .error (.unresolvedConflict id resource)
    else .ok (resource, record)

/-- The ledger after the record with an id has moved to a stage, and the record at that stage. -/
def transition (ledger : Ledger) (limits : Limits) (id : String) (next : Status) :
    Ledger × Except Fault Record :=
  match ledger.admitTransition limits id next with
  | .error fault => (ledger, .error fault)
  | .ok (resource, record) =>
    (ledger.withBook resource ((ledger.book resource).setStatus id next),
      .ok (record.withStatus next))

/-- The ledger after the record with an id has been taken out, and that record. -/
def remove (ledger : Ledger) (id : String) : Ledger × Except Fault Record :=
  match ledger.locate id with
  | .error fault => (ledger, .error fault)
  | .ok (resource, record) =>
    if record.status = .completed then (ledger, .error (.illegalRemoval id))
    else
      ({ ledger.withBook resource ((ledger.book resource).remove id) with
          index := ledger.index.erase id },
        .ok record)

end Ledger

end ShopFloor
