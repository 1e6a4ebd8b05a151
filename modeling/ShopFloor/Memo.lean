import ShopFloor.NameMap

/-!
# Bounded memory of results

A memo keeps results under keys, up to a number of entries, and counts how often a key was found
or missing. Once it is full, new results are still handed out and no longer kept. A result that is
a refusal is never kept. A memo of capacity zero keeps nothing.
-/

namespace ShopFloor

/-- Results kept under keys. -/
structure Memo (α : Type) where
  /-- The most entries kept. -/
  capacity : Nat
  /-- The results kept. -/
  entries : NameMap α
  /-- How often a key was found since the last clearing. -/
  hits : Nat
  /-- How often a key was missing since the last clearing. -/
  misses : Nat
  deriving DecidableEq, Repr

namespace Memo

variable {α ε : Type}

/-- A memo that keeps nothing yet. -/
def ofCapacity (capacity : Nat) : Memo α := ⟨capacity, .empty, 0, 0⟩

/-- The memo after a result was kept, if there was room. -/
def keep (memo : Memo α) (key : String) (value : α) : Memo α :=
  if memo.capacity ≤ memo.entries.size then memo
  else { memo with entries := memo.entries.insert key value }

/-- The memo after a key was asked for, and the answer: what is kept under the key, or else the
result of building it. -/
def fetch (memo : Memo α) (key : String) (build : Except ε α) : Memo α × Except ε α :=
  match memo.entries.get? key with
  | some value => ({ memo with hits := memo.hits + 1 }, .ok value)
  | none =>
    let counted := { memo with misses := memo.misses + 1 }
    match build with
    | .ok value => (counted.keep key value, .ok value)
    | .error refusal => (counted, .error refusal)

/-- The memo after clearing. -/
def clear (memo : Memo α) : Memo α := ofCapacity memo.capacity

/-- How many results are kept. -/
def size (memo : Memo α) : Nat := memo.entries.size

/-- Keeping a result does not change how many entries may be kept. -/
theorem capacity_keep (memo : Memo α) (key : String) (value : α) :
    (memo.keep key value).capacity = memo.capacity := by
  unfold keep
  split <;> rfl

/-- Keeping a result counts nothing. -/
theorem counts_keep (memo : Memo α) (key : String) (value : α) :
    (memo.keep key value).hits = memo.hits ∧ (memo.keep key value).misses = memo.misses := by
  unfold keep
  split <;> exact ⟨rfl, rfl⟩

/-- Each request counts once. -/
theorem requests_fetch (memo : Memo α) (key : String) (build : Except ε α) :
    (memo.fetch key build).1.hits + (memo.fetch key build).1.misses
      = memo.hits + memo.misses + 1 := by
  unfold fetch
  cases memo.entries.get? key with
  | some value => exact Nat.add_right_comm _ _ _
  | none =>
    cases build with
    | error refusal => rfl
    | ok value => simp only [counts_keep, Nat.add_assoc]

end Memo

end ShopFloor
