/-!
# Finite maps from names

A map keeps its entries in strictly ascending order of their names, compared character by character
by code point. So each name occurs once, listing a map lists it sorted, and two maps that answer
every look-up alike are equal.
-/

namespace ShopFloor

/-- A finite map from names to values of one type. -/
structure NameMap (α : Type) where
  /-- The entries, by ascending name. -/
  entries : List (String × α)
  /-- Names ascend strictly. -/
  ascending : entries.Pairwise fun a b => a.1 < b.1
  deriving DecidableEq, Repr

namespace NameMap

variable {α : Type}

/-- The value at a name in a list of entries. -/
def lookup (name : String) : List (String × α) → Option α
  | [] => none
  | (other, value) :: rest => if name = other then some value else lookup name rest

/-- The entries with the value at one name set. -/
def insertEntry (name : String) (value : α) : List (String × α) → List (String × α)
  | [] => [(name, value)]
  | (other, old) :: rest =>
    if name < other then (name, value) :: (other, old) :: rest
    else if name = other then (name, value) :: rest
    else (other, old) :: insertEntry name value rest

/-- Setting a value adds no entry but the new one. -/
theorem mem_insertEntry {name : String} {value : α} {entry : String × α}
    {entries : List (String × α)} (h : entry ∈ insertEntry name value entries) :
    entry = (name, value) ∨ entry ∈ entries := by
  induction entries with
  | nil => simpa [insertEntry] using h
  | cons first rest ih => grind [insertEntry]

/-- Setting a value keeps the names ascending. -/
theorem ascending_insertEntry (name : String) (value : α) {entries : List (String × α)}
    (h : entries.Pairwise fun a b => a.1 < b.1) :
    (insertEntry name value entries).Pairwise fun a b => a.1 < b.1 := by
  induction entries with
  | nil => simp [insertEntry]
  | cons first rest ih =>
    obtain ⟨other, old⟩ := first
    obtain ⟨hfirst, hrest⟩ := List.pairwise_cons.mp h
    rw [insertEntry]
    split
    next hlt =>
      refine List.pairwise_cons.mpr ⟨fun entry he => ?_, h⟩
      rcases List.mem_cons.mp he with rfl | he
      · exact hlt
      · exact String.lt_trans hlt (hfirst entry he)
    next hnlt =>
      split
      next heq =>
        subst heq
        exact List.pairwise_cons.mpr ⟨hfirst, hrest⟩
      next hne =>
        refine List.pairwise_cons.mpr ⟨fun entry he => ?_, ih hrest⟩
        rcases mem_insertEntry he with rfl | he
        · show other < name
          grind
        · exact hfirst entry he

/-- The map without entries. -/
def empty : NameMap α := ⟨[], List.Pairwise.nil⟩

/-- The value at a name. -/
def get? (map : NameMap α) (name : String) : Option α := lookup name map.entries

/-- Whether a name has a value. -/
def contains (map : NameMap α) (name : String) : Bool := (map.get? name).isSome

/-- The map with the value at one name set. -/
def insert (map : NameMap α) (name : String) (value : α) : NameMap α :=
  ⟨insertEntry name value map.entries, ascending_insertEntry name value map.ascending⟩

/-- The map without one name. -/
def erase (map : NameMap α) (name : String) : NameMap α :=
  ⟨map.entries.filter (·.1 ≠ name), map.ascending.sublist List.filter_sublist⟩

/-- The map of a list of entries. Of several entries of one name the last counts. -/
def ofList (entries : List (String × α)) : NameMap α :=
  entries.foldl (fun map entry => map.insert entry.1 entry.2) empty

/-- The names, ascending. -/
def names (map : NameMap α) : List String := map.entries.map (·.1)

/-- The values, by ascending name. -/
def values (map : NameMap α) : List α := map.entries.map (·.2)

/-- The number of names. -/
def size (map : NameMap α) : Nat := map.entries.length

/-- Whether there is no name. -/
def isEmpty (map : NameMap α) : Bool := map.entries.isEmpty

/-- No name has a value in the empty map. -/
@[simp] theorem get?_empty (name : String) : (empty : NameMap α).get? name = none := rfl

/-- A set value is found at its name, and every other name is as before. -/
@[simp] theorem get?_insert (map : NameMap α) (name other : String) (value : α) :
    (map.insert name value).get? other = if other = name then some value else map.get? other := by
  show lookup other (insertEntry name value map.entries) = _
  show _ = if other = name then some value else lookup other map.entries
  induction map.entries with
  | nil => simp [insertEntry, lookup]
  | cons first rest ih =>
    obtain ⟨key, old⟩ := first
    rw [insertEntry]
    split
    · simp [lookup]
    · split
      next heq => subst heq; by_cases h : other = name <;> simp [lookup, h]
      next hne =>
        rw [lookup, lookup, ih]
        by_cases h : other = key
        · subst h
          simp [Ne.symm hne]
        · simp [h]

/-- An erased name has no value, and every other name is as before. -/
@[simp] theorem get?_erase (map : NameMap α) (name other : String) :
    (map.erase name).get? other = if other = name then none else map.get? other := by
  show lookup other (map.entries.filter (·.1 ≠ name)) = _
  show _ = if other = name then none else lookup other map.entries
  induction map.entries with
  | nil => simp [lookup]
  | cons first rest ih =>
    obtain ⟨key, old⟩ := first
    by_cases hk : key = name
    · subst hk
      rw [List.filter_cons_of_neg (by simp), ih, lookup]
      by_cases h : other = key <;> simp [h]
    · rw [List.filter_cons_of_pos (by simpa using hk), lookup, lookup, ih]
      by_cases h : other = key
      · subst h
        simp [hk]
      · simp [h]

/-- A name has a value exactly when it is listed with it. -/
theorem mem_entries_iff {map : NameMap α} {name : String} {value : α} :
    (name, value) ∈ map.entries ↔ map.get? name = some value := by
  obtain ⟨entries, h⟩ := map
  show (name, value) ∈ entries ↔ lookup name entries = some value
  induction entries with
  | nil => simp [lookup]
  | cons first rest ih =>
    obtain ⟨key, old⟩ := first
    obtain ⟨hfirst, hrest⟩ := List.pairwise_cons.mp h
    rw [lookup]
    by_cases hk : name = key
    · subst hk
      have hnot : (name, value) ∉ rest := fun hm => String.lt_irrefl name (hfirst _ hm)
      simp [hnot, eq_comm]
    · simp [hk, ih hrest]

/-- Maps that answer every look-up alike are equal. -/
theorem ext_get? {a b : NameMap α} (h : ∀ name, a.get? name = b.get? name) : a = b := by
  have hmem : ∀ entry, entry ∈ a.entries ↔ entry ∈ b.entries := by
    rintro ⟨name, value⟩
    rw [mem_entries_iff, mem_entries_iff, h]
  have hnodup : ∀ m : NameMap α, m.entries.Nodup := fun m =>
    List.Pairwise.imp (fun {x y} (hlt : x.1 < y.1) (heq : x = y) =>
      String.lt_irrefl x.1 (by rw [heq] at hlt ⊢; exact hlt)) m.ascending
  have hperm : a.entries.Perm b.entries :=
    (List.perm_ext_iff_of_nodup (hnodup a) (hnodup b)).mpr hmem
  have heq : a.entries = b.entries :=
    hperm.eq_of_pairwise (fun x y _ _ hxy hyx => absurd hyx (String.lt_asymm hxy))
      a.ascending b.ascending
  cases a
  cases b
  cases heq
  rfl

end NameMap

end ShopFloor
