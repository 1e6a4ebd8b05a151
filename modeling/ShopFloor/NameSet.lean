/-!
# Finite sets of names

A set keeps its names strictly ascending by code point, so each name is listed once and two sets
with the same members are equal.
-/

namespace ShopFloor

/-- A finite set of names. -/
structure NameSet where
  /-- The names, ascending. -/
  names : List String
  /-- Names ascend strictly. -/
  ascending : names.Pairwise (· < ·)
  deriving DecidableEq, Repr

namespace NameSet

/-- An ascending list with one name added. -/
def insertName (name : String) : List String → List String
  | [] => [name]
  | other :: rest =>
    if name < other then name :: other :: rest
    else if name = other then other :: rest
    else other :: insertName name rest

/-- The names after an addition are the old ones and the new one. -/
theorem mem_insertName {name other : String} {names : List String} :
    other ∈ insertName name names ↔ other = name ∨ other ∈ names := by
  induction names with
  | nil => simp [insertName]
  | cons first rest ih => grind [insertName]

/-- Adding a name keeps the list ascending. -/
theorem ascending_insertName (name : String) {names : List String}
    (h : names.Pairwise (· < ·)) : (insertName name names).Pairwise (· < ·) := by
  induction names with
  | nil => simp [insertName]
  | cons first rest ih =>
    obtain ⟨hfirst, hrest⟩ := List.pairwise_cons.mp h
    rw [insertName]
    split
    next hlt =>
      refine List.pairwise_cons.mpr ⟨fun other ho => ?_, h⟩
      rcases List.mem_cons.mp ho with rfl | ho
      · exact hlt
      · exact String.lt_trans hlt (hfirst other ho)
    next hnlt =>
      split
      next => exact h
      next hne =>
        refine List.pairwise_cons.mpr ⟨fun other ho => ?_, ih hrest⟩
        rcases mem_insertName.mp ho with rfl | ho
        · grind
        · exact hfirst other ho

/-- The set without members. -/
def empty : NameSet := ⟨[], List.Pairwise.nil⟩

/-- Whether a name is a member. -/
def contains (set : NameSet) (name : String) : Bool := set.names.contains name

/-- The set with one name added. -/
def insert (set : NameSet) (name : String) : NameSet :=
  ⟨insertName name set.names, ascending_insertName name set.ascending⟩

/-- The set of the names of a list. -/
def ofList (names : List String) : NameSet := names.foldl insert empty

/-- Whether there is no member. -/
def isEmpty (set : NameSet) : Bool := set.names.isEmpty

/-- The members after an addition are the old ones and the new one. -/
@[simp] theorem contains_insert (set : NameSet) (name other : String) :
    (set.insert name).contains other = (decide (other = name) || set.contains other) := by
  simp [contains, insert, mem_insertName]

end NameSet

end ShopFloor
