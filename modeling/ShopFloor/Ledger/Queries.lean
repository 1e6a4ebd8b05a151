import ShopFloor.Ledger.Basic
import ShopFloor.Text.Decimal

/-!
# What the ledger holds

Records are looked up by id, listed by resource in the order of start and id, and counted. Books
without records do not show, except in the text that describes the ledger.
-/

namespace ShopFloor.Ledger

/-- The stored record with an id. -/
def get? (ledger : Ledger) (id : String) : Option Record :=
  match ledger.locate id with
  | .ok (_, record) => some record
  | .error _ => none

/-- Records by start, then by id. -/
def listed (records : List Record) : List Record := records.mergeSort Record.listedBefore

/-- The records of a resource, by start and id. -/
def recordsFor (ledger : Ledger) (resource : String) : List Record :=
  listed (ledger.book resource).records

/-- The conflicted records of a resource, by start and id. -/
def conflictsFor (ledger : Ledger) (resource : String) : List Record :=
  listed (ledger.book resource).conflicts

/-- How many records of a resource are conflicted. -/
def conflictCount (ledger : Ledger) (resource : String) : Nat :=
  (ledger.book resource).conflictCount

/-- How often the records of a resource have changed. -/
def revision (ledger : Ledger) (resource : String) : Nat := (ledger.book resource).revision

/-- The resources that have records, ascending. -/
def resources (ledger : Ledger) : List String :=
  (ledger.books.entries.filter fun entry => !entry.2.records.isEmpty).map (·.1)

/-- How many records are stored. -/
def size (ledger : Ledger) : Nat := ledger.index.size

/-- Whether no record is stored. -/
def isEmpty (ledger : Ledger) : Bool := ledger.index.isEmpty

/-- All stored records, resource by resource, each in the order of its book. -/
def records (ledger : Ledger) : List Record := ledger.books.values.flatMap (·.records)

/-- How many records are at a stage. -/
def countAt (ledger : Ledger) (status : Status) : Nat :=
  ledger.records.countP (·.status = status)

/-- The stages that have records, and how many. -/
def statusCounts (ledger : Ledger) : List (Status × Nat) :=
  (Status.all.map fun status => (status, ledger.countAt status)).filter (·.2 ≠ 0)

/-- A resource is listed exactly when it has records. -/
theorem mem_resources_iff {ledger : Ledger} {resource : String} :
    resource ∈ ledger.resources ↔ (ledger.book resource).records ≠ [] := by
  unfold resources book
  simp only [List.mem_map, List.mem_filter, Prod.exists]
  constructor
  · rintro ⟨name, book, ⟨hmem, hne⟩, rfl⟩
    rw [NameMap.mem_entries_iff.mp hmem]
    simpa using hne
  · intro h
    cases hg : ledger.books.get? resource with
    | none => simp [hg, Book.empty] at h
    | some book =>
      refine ⟨resource, book, ⟨NameMap.mem_entries_iff.mpr hg, ?_⟩, rfl⟩
      simpa [hg] using h

/-- The text that describes a ledger, given the limit of a resource without a declared one. -/
def describe (ledger : Ledger) (fallback : Nat) : String :=
  "AllocationLedger \x7b resources: " ++ Text.natText ledger.books.size
    ++ ", records: " ++ Text.natText ledger.size
    ++ ", default_limit: " ++ Text.natText fallback ++ " \x7d"

end ShopFloor.Ledger
