import ShopFloor.NameMap
import ShopFloor.NameSet

/-!
# Maps and sets of names

A map is rebuilt from its own entries, and a set from its own names, since each in turn goes behind
those before. A map grows by one with each new name. Where values are found under names of their
own, a map lists them by these names. Main statements: `NameMap.ofList_entries`,
`NameMap.size_insert_of_new`, `NameMap.KeyedBy.mem_values_iff`, `NameSet.ofList_names`,
`NameSet.mem_names_ofList`.
-/

namespace ShopFloor

namespace NameMap

variable {α : Type}

/-- An entry whose name is beyond all others goes to the end. -/
theorem insertEntry_of_beyond {name : String} {value : α} {entries : List (String × α)}
    (h : ∀ entry ∈ entries, entry.1 < name) :
    insertEntry name value entries = entries ++ [(name, value)] := by
  induction entries with
  | nil => rfl
  | cons first rest ih =>
    rw [List.forall_mem_cons] at h
    have hne : name ≠ first.1 := fun heq => String.lt_irrefl name (heq ▸ h.1)
    rw [insertEntry, if_neg (String.lt_asymm h.1), if_neg hne, ih h.2, List.cons_append]

/-- Entries in ascending order behind those of a map are added to its end. -/
theorem entries_foldl_insert (entries : List (String × α)) (map : NameMap α)
    (h : (map.entries ++ entries).Pairwise fun a b => a.1 < b.1) :
    (entries.foldl (fun map entry => map.insert entry.1 entry.2) map).entries =
      map.entries ++ entries := by
  induction entries generalizing map with
  | nil => rw [List.foldl_nil, List.append_nil]
  | cons entry rest ih =>
    have hbeyond : ∀ other ∈ map.entries, other.1 < entry.1 := fun other hother =>
      (List.pairwise_append.mp h).2.2 other hother entry List.mem_cons_self
    have hinsert : (map.insert entry.1 entry.2).entries = map.entries ++ [entry] :=
      insertEntry_of_beyond hbeyond
    rw [List.foldl_cons, ih _ (by rwa [hinsert, List.append_assoc]), hinsert, List.append_assoc,
      List.singleton_append]

/-- A map is rebuilt from its entries. -/
theorem ofList_entries (map : NameMap α) : ofList map.entries = map := by
  have hentries : (ofList map.entries).entries = map.entries :=
    entries_foldl_insert map.entries empty map.ascending
  cases hmap : ofList map.entries with
  | mk entries ascending =>
    rw [hmap] at hentries
    cases map
    cases hentries
    rfl

/-- An entry whose name is new makes the list longer by one. -/
theorem length_insertEntry_of_new {name : String} (value : α) {entries : List (String × α)}
    (h : lookup name entries = none) :
    (insertEntry name value entries).length = entries.length + 1 := by
  induction entries with
  | nil => rfl
  | cons first rest ih =>
    rw [lookup] at h
    split at h
    next => cases h
    next hne =>
      rw [insertEntry, if_neg hne]
      split
      next => rfl
      next => rw [List.length_cons, ih h, List.length_cons]

/-- A map grows by one when a new name is set. -/
theorem size_insert_of_new {map : NameMap α} {name : String} (h : map.get? name = none)
    (value : α) : (map.insert name value).size = map.size + 1 :=
  length_insertEntry_of_new value h

/-- Each value of a map is found under the name that the value itself has. -/
def KeyedBy (map : NameMap α) (key : α → String) : Prop :=
  ∀ entry ∈ map.entries, key entry.2 = entry.1

variable {map : NameMap α} {key : α → String}

/-- The values of a map that are found under their own names are listed by ascending name. -/
theorem KeyedBy.ascending (h : map.KeyedBy key) :
    map.values.Pairwise fun a b => key a < key b := by
  refine List.pairwise_map.mpr (map.ascending.imp_of_mem fun {a b} ha hb hlt => ?_)
  rw [h a ha, h b hb]
  exact hlt

/-- A value is listed exactly when it is found under its own name. -/
theorem KeyedBy.mem_values_iff (h : map.KeyedBy key) {value : α} :
    value ∈ map.values ↔ map.get? (key value) = some value := by
  rw [← mem_entries_iff, values, List.mem_map]
  constructor
  · rintro ⟨⟨name, value⟩, hentry, rfl⟩
    rwa [h _ hentry]
  · exact fun hentry => ⟨_, hentry, rfl⟩

end NameMap

namespace NameSet

/-- A name beyond all others goes to the end. -/
theorem insertName_of_beyond {name : String} {names : List String}
    (h : ∀ other ∈ names, other < name) : insertName name names = names ++ [name] := by
  induction names with
  | nil => rfl
  | cons first rest ih =>
    rw [List.forall_mem_cons] at h
    have hne : name ≠ first := fun heq => String.lt_irrefl name (heq ▸ h.1)
    rw [insertName, if_neg (String.lt_asymm h.1), if_neg hne, ih h.2, List.cons_append]

/-- Names in ascending order behind those of a set are added to its end. -/
theorem names_foldl_insert (names : List String) (set : NameSet)
    (h : (set.names ++ names).Pairwise (· < ·)) :
    (names.foldl insert set).names = set.names ++ names := by
  induction names generalizing set with
  | nil => rw [List.foldl_nil, List.append_nil]
  | cons name rest ih =>
    have hbeyond : ∀ other ∈ set.names, other < name := fun other hother =>
      (List.pairwise_append.mp h).2.2 other hother name List.mem_cons_self
    have hinsert : (set.insert name).names = set.names ++ [name] := insertName_of_beyond hbeyond
    rw [List.foldl_cons, ih _ (by rwa [hinsert, List.append_assoc]), hinsert, List.append_assoc,
      List.singleton_append]

/-- A set is rebuilt from its names. -/
theorem ofList_names (set : NameSet) : ofList set.names = set := by
  have hnames : (ofList set.names).names = set.names :=
    names_foldl_insert set.names empty set.ascending
  cases hset : ofList set.names with
  | mk names ascending =>
    rw [hset] at hnames
    cases set
    cases hnames
    rfl

/-- The names added to a set are in it besides those before. -/
theorem mem_names_foldl_insert {name : String} (names : List String) (set : NameSet) :
    name ∈ (names.foldl insert set).names ↔ name ∈ names ∨ name ∈ set.names := by
  induction names generalizing set with
  | nil => rw [List.foldl_nil, or_iff_right List.not_mem_nil]
  | cons first rest ih =>
    rw [List.foldl_cons, ih, insert, mem_insertName, List.mem_cons, or_left_comm, or_assoc]

/-- The set of the names of a list has these names. -/
theorem mem_names_ofList {name : String} {names : List String} :
    name ∈ (ofList names).names ↔ name ∈ names :=
  (mem_names_foldl_insert names empty).trans (or_iff_left List.not_mem_nil)

/-- A set lists no name twice. -/
theorem nodup_names (set : NameSet) : set.names.Nodup :=
  set.ascending.imp String.ne_of_lt

end NameSet

end ShopFloor
