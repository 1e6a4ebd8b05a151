import ShopFloor.Proofs.Ledger.Run

/-!
# The index and the books agree

A ledger is consistent when each book holds records of its own resource only, under different ids,
and the index leads from an id to a resource exactly when the book of that resource holds a record
with the id. So an id stands for at most one record of the whole ledger. Every call keeps this, with
any limits. Main statements: `Consistent.effect`, `consistent_run` and
`Consistent.get?_eq_some_iff`.
-/

namespace ShopFloor.Ledger

/-- The index and the books agree. -/
structure Consistent (ledger : Ledger) : Prop where
  /-- A book holds records of its own resource. -/
  resource_eq : ∀ resource, ∀ r ∈ (ledger.book resource).records, r.resource = resource
  /-- The ids in a book are different. -/
  nodup_ids : ∀ resource, ((ledger.book resource).records.map (·.id)).Nodup
  /-- The index leads exactly to the ids in the books. -/
  index_iff : ∀ id resource, ledger.index.get? id = some resource ↔
    id ∈ (ledger.book resource).records.map (·.id)

/-- The ledger at the start is consistent. -/
theorem consistent_empty : empty.Consistent := by
  have hbook : ∀ resource, (empty.book resource).records = [] := fun _ => rfl
  refine ⟨fun resource r hr => ?_, fun resource => ?_, fun id resource => ?_⟩
  · rw [hbook] at hr
    cases hr
  · rw [hbook]
    exact List.nodup_nil
  · rw [hbook]
    simp [empty]

/-- The ids in each book after a record has been stored. -/
theorem ids_book_storing (ledger : Ledger) (limit : Nat) (record : Record) (resource : String) :
    ((ledger.storing limit record).book resource).records.map (·.id) =
      (ledger.book resource).records.map (·.id) ++
        if resource = record.resource then [record.id] else [] := by
  rw [book_storing]
  split
  next heq => rw [heq, Book.ids_add]
  next => rw [List.append_nil]

/-- Moving a record changes no id in any book. -/
theorem ids_book_moving (ledger : Ledger) (resource id : String) (next : Status) (other : String) :
    ((ledger.moving resource id next).book other).records.map (·.id) =
      (ledger.book other).records.map (·.id) := by
  rw [book_moving]
  split
  next heq => rw [heq, Book.ids_setStatus]
  next => rfl

namespace Consistent

variable {ledger : Ledger}

/-- Consistency is read off the books and the index. -/
theorem alike (h : ledger.Consistent) {next : Ledger} (halike : ledger.Alike next) :
    next.Consistent := by
  refine ⟨fun resource => ?_, fun resource => ?_, fun id resource => ?_⟩
  · rw [halike.book]
    exact h.resource_eq resource
  · rw [halike.book]
    exact h.nodup_ids resource
  · rw [halike.book, halike.index]
    exact h.index_iff id resource

/-- A record with a new id is in no book. -/
theorem not_mem_ids (h : ledger.Consistent) {id : String} (hfresh : ledger.index.get? id = none)
    (resource : String) : id ∉ (ledger.book resource).records.map (·.id) := by
  intro hmem
  have hsome := (h.index_iff id resource).mpr hmem
  rw [hfresh] at hsome
  cases hsome

/-- Storing a record with a new id keeps the index and the books in agreement. -/
theorem storing (h : ledger.Consistent) (limit : Nat) {record : Record}
    (hfresh : ledger.index.get? record.id = none) : (ledger.storing limit record).Consistent := by
  refine ⟨fun resource r hr => ?_, fun resource => ?_, fun id resource => ?_⟩
  · rw [book_storing] at hr
    split at hr
    next heq =>
      rw [Book.records_add, List.mem_append, List.mem_map, List.mem_singleton] at hr
      rcases hr with ⟨other, hother, rfl⟩ | rfl
      · rw [Book.resource_kept, heq]
        exact h.resource_eq record.resource other hother
      · rw [Book.resource_stored, heq]
    next => exact h.resource_eq resource r hr
  · rw [ids_book_storing]
    split
    next =>
      refine List.nodup_append.mpr ⟨h.nodup_ids resource, List.nodup_singleton _, ?_⟩
      intro a ha b hb heq
      rw [heq, List.mem_singleton.mp hb] at ha
      exact h.not_mem_ids hfresh resource ha
    next =>
      rw [List.append_nil]
      exact h.nodup_ids resource
  · rw [ids_book_storing, index_storing, NameMap.get?_insert, List.mem_append]
    by_cases hid : id = record.id
    · have hnot := h.not_mem_ids hfresh resource
      rw [if_pos hid, hid, Option.some.injEq]
      split
      next heq => simp [heq]
      next hne => simpa [Ne.symm hne] using hnot
    · rw [if_neg hid, h.index_iff]
      split <;> simp [hid]

/-- Moving a record to another stage keeps the index and the books in agreement. -/
theorem moving (h : ledger.Consistent) (resource id : String) (next : Status) :
    (ledger.moving resource id next).Consistent := by
  refine ⟨fun other r hr => ?_, fun other => ?_, fun key other => ?_⟩
  · rw [book_moving] at hr
    split at hr
    next heq =>
      rw [Book.records_setStatus] at hr
      obtain ⟨old, hold, rfl⟩ := List.mem_map.mp hr
      rw [Record.resource_moved, heq]
      exact h.resource_eq resource old hold
    next => exact h.resource_eq other r hr
  · rw [ids_book_moving]
    exact h.nodup_ids other
  · rw [ids_book_moving, index_moving]
    exact h.index_iff key other

/-- Taking out a record, where the index leads to, keeps the index and the books in agreement. -/
theorem dropping (h : ledger.Consistent) {resource id : String}
    (hindex : ledger.index.get? id = some resource) :
    (ledger.dropping resource id).Consistent := by
  have hmem : ∀ other key, key ∈ ((ledger.dropping resource id).book other).records.map (·.id) ↔
      key ∈ (ledger.book other).records.map (·.id) ∧ key ≠ id := by
    intro other key
    rw [book_dropping]
    split
    next heq =>
      simp only [heq, List.mem_map, Book.mem_remove_iff]
      constructor
      · intro hkey
        obtain ⟨r, ⟨hr, hne⟩, hid⟩ := hkey
        exact ⟨⟨r, hr, hid⟩, by rw [← hid]; exact hne⟩
      · intro hkey
        obtain ⟨⟨r, hr, hid⟩, hne⟩ := hkey
        exact ⟨r, ⟨hr, by rw [hid]; exact hne⟩, hid⟩
    next hne =>
      -- The id is in the book of its own resource only.
      refine ⟨fun hkey => ⟨hkey, fun heq => ?_⟩, fun hkey => hkey.1⟩
      have howner := (h.index_iff key other).mpr hkey
      rw [heq, hindex] at howner
      exact hne (Option.some.inj howner).symm
  refine ⟨fun other r hr => ?_, fun other => ?_, fun key other => ?_⟩
  · rw [book_dropping] at hr
    split at hr
    next heq =>
      rw [heq]
      exact h.resource_eq resource r (Book.mem_remove_iff.mp hr).1
    next => exact h.resource_eq other r hr
  · rw [book_dropping]
    split
    next => exact (h.nodup_ids resource).sublist (List.filter_sublist.map _)
    next => exact h.nodup_ids other
  · rw [hmem, index_dropping, NameMap.get?_erase, ← h.index_iff]
    by_cases hkey : key = id
    · simp [hkey]
    · simp [hkey]

/-- Every call keeps the index and the books in agreement. -/
theorem effect (h : ledger.Consistent) {call : Call} {next : Ledger}
    {answer : Except Fault Answer} (heffect : Effect ledger call next answer) :
    next.Consistent := by
  cases heffect with
  | refused halike => exact h.alike halike
  | stored _ _ _ hfresh => exact h.storing _ hfresh
  | moved => exact h.moving _ _ _
  | removed _ hindex => exact h.dropping hindex

/-- A run from a consistent ledger ends in one. -/
theorem run (h : ledger.Consistent) (calls : List Call) : (ledger.run calls).Consistent :=
  run_induction h fun l call _ hl => hl.effect (step_effect l call)

/-- The record with an id is the one that the book of its resource holds under it. -/
theorem get?_eq_some_iff (h : ledger.Consistent) {id : String} {r : Record} :
    ledger.get? id = some r ↔ r ∈ (ledger.book r.resource).records ∧ r.id = id := by
  rw [get?_eq_some_iff_find?]
  constructor
  · intro hfound
    obtain ⟨resource, _, hfind⟩ := hfound
    have hstored := (Book.find?_eq_some_iff (h.nodup_ids resource)).mp hfind
    rw [h.resource_eq resource r hstored.1]
    exact hstored
  · intro hstored
    refine ⟨r.resource, ?_, (Book.find?_eq_some_iff (h.nodup_ids r.resource)).mpr hstored⟩
    rw [h.index_iff, ← hstored.2]
    exact List.mem_map_of_mem hstored.1

/-- A record in a book is looked up under its id. -/
theorem get?_of_mem (h : ledger.Consistent) {resource : String} {r : Record}
    (hr : r ∈ (ledger.book resource).records) : ledger.get? r.id = some r := by
  rw [h.get?_eq_some_iff, h.resource_eq resource r hr]
  exact ⟨hr, rfl⟩

/-- No book holds a record under an id exactly when the index does not know the id. -/
theorem get?_eq_none_iff (h : ledger.Consistent) {id : String} :
    ledger.get? id = none ↔ ledger.index.get? id = none := by
  rw [Option.eq_none_iff_forall_not_mem, Option.eq_none_iff_forall_not_mem]
  constructor
  · intro hnone resource hindex
    obtain ⟨r, hr, rfl⟩ := List.mem_map.mp ((h.index_iff id resource).mp hindex)
    exact hnone r (h.get?_of_mem hr)
  · intro hnone r hget
    obtain ⟨hr, hid⟩ := h.get?_eq_some_iff.mp hget
    exact hnone r.resource ((h.index_iff id r.resource).mpr (List.mem_map.mpr ⟨r, hr, hid⟩))

end Consistent

/-- Every ledger that a run reaches is consistent. -/
theorem consistent_run (calls : List Call) : (empty.run calls).Consistent :=
  consistent_empty.run calls

end ShopFloor.Ledger
