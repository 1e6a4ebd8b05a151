import ShopFloor.Allocation.Record
import ShopFloor.Window.Peak

/-!
# The book of one resource

A book holds the records of one resource in the order of their insertion, and counts its changes. A
record that comes in adds one to the number of records that are open at each instant of its
interval. When that takes the peak over the limit, the new record and every occupying record that
overlaps it are flagged as conflicted; no insertion clears a flag.
-/

namespace ShopFloor

/-- What an insertion did. -/
structure Insertion where
  /-- The id of the record. -/
  record : String
  /-- Its resource. -/
  resource : String
  /-- The limit of the resource. -/
  limit : Nat
  /-- The most records open at once in the interval of the record, itself included; zero for a
  record that does not occupy. -/
  peak : Nat
  /-- Whether the record is stored as conflicted. -/
  conflicted : Bool
  /-- The other records that were flagged, in the order of their insertion. -/
  newlyConflicted : List String
  /-- How many records of the resource are conflicted now. -/
  conflictCount : Nat
  /-- The revision of the resource now. -/
  revision : Nat
  deriving DecidableEq, Repr

namespace Insertion

/-- The records that an insertion left in conflict, the new one first. -/
def affected (i : Insertion) : List String :=
  (if i.conflicted then [i.record] else []) ++ i.newlyConflicted

end Insertion

/-- The records of one resource. -/
structure Book where
  /-- The records, in the order of their insertion. -/
  records : List Record
  /-- How often the book has changed. -/
  revision : Nat
  deriving DecidableEq, Repr

namespace Book

/-- The book of a resource that was never touched. -/
def empty : Book := ⟨[], 0⟩

/-- The record with an id. -/
def find? (book : Book) (id : String) : Option Record := book.records.find? (·.id = id)

/-- The intervals of the records that occupy the resource. -/
def occupied (records : List Record) : List Window :=
  (records.filter (·.occupies)).map (·.interval)

/-- How many records that occupy the resource are open at an instant. -/
def openAt (book : Book) (instant : Int) : Nat := Window.openAt (occupied book.records) instant

/-- The conflicted records, in the order of their insertion. -/
def conflicts (book : Book) : List Record := book.records.filter (·.isConflicted)

/-- How many records are conflicted. -/
def conflictCount (book : Book) : Nat := book.records.countP (·.isConflicted)

/-- The number of conflicted records is that of their list. -/
theorem length_conflicts (book : Book) : book.conflicts.length = book.conflictCount :=
  List.countP_eq_length_filter.symm

/-- The peak in the interval of a record that joins others, itself included. -/
def peakWith (records : List Record) (record : Record) : Nat :=
  if record.occupies then Window.peak record.interval (occupied records) + 1 else 0

/-- Whether a stored record is in the way of another: it occupies and overlaps. -/
def inTheWay (record other : Record) : Bool :=
  other.occupies && other.interval.overlaps record.interval

/-- The records that an insertion over the limit flags: those in the way that are not flagged. -/
def newlyFlagged (records : List Record) (record : Record) : List Record :=
  records.filter fun other => inTheWay record other && !other.isConflicted

/-- The records after an insertion over the limit has flagged those in the way. -/
def flag (records : List Record) (record : Record) : List Record :=
  records.map fun other => if inTheWay record other then other.withStatus .conflicted else other

/-- The book after a record has come in, given the limit of the resource. -/
def add (book : Book) (limit : Nat) (record : Record) : Book :=
  if limit < peakWith book.records record then
    ⟨flag book.records record ++ [record.withStatus .conflicted], book.revision + 1⟩
  else ⟨book.records ++ [record], book.revision + 1⟩

/-- The account of a record's coming in. -/
def insertion (book : Book) (limit : Nat) (record : Record) : Insertion :=
  let peak := peakWith book.records record
  let after := book.add limit record
  { record := record.id
    resource := record.resource
    limit
    peak
    conflicted := limit < peak || record.isConflicted
    newlyConflicted :=
      if limit < peak then (newlyFlagged book.records record).map (·.id) else []
    conflictCount := after.conflictCount
    revision := after.revision }

/-- The book without the records of one id. -/
def others (book : Book) (id : String) : List Record := book.records.filter (·.id ≠ id)

/-- The book after the record with an id has moved to another stage. -/
def setStatus (book : Book) (id : String) (status : Status) : Book :=
  ⟨book.records.map fun r => if r.id = id then r.withStatus status else r, book.revision + 1⟩

/-- The book after the record with an id has been taken out. -/
def remove (book : Book) (id : String) : Book := ⟨book.others id, book.revision + 1⟩

/-- An insertion adds one record. -/
theorem length_add (book : Book) (limit : Nat) (record : Record) :
    (book.add limit record).records.length = book.records.length + 1 := by
  unfold add
  split <;> simp [flag]

/-- An insertion is one change. -/
theorem revision_add (book : Book) (limit : Nat) (record : Record) :
    (book.add limit record).revision = book.revision + 1 := by
  unfold add
  split <;> rfl

/-- An insertion keeps the ids and appends the new one. -/
theorem ids_add (book : Book) (limit : Nat) (record : Record) :
    (book.add limit record).records.map (·.id) = book.records.map (·.id) ++ [record.id] := by
  unfold add
  split
  · simp only [flag, List.map_append, List.map_map, List.map_cons, List.map_nil, Record.withStatus,
      List.append_cancel_right_eq]
    refine List.map_congr_left fun r _ => ?_
    show Record.id (if _ then _ else r) = r.id
    split <;> rfl
  · simp

end Book

end ShopFloor
