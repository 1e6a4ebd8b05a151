import Mathlib.Algebra.BigOperators.Group.List.Basic
import Mathlib.Algebra.GroupWithZero.Nat
import Mathlib.Data.List.Nodup
import ShopFloor.Proofs.Ledger.Consistency

/-!
# Every query tells the same story

Records can be looked up by id, listed by resource, listed by conflict, and counted in three ways.
In a consistent ledger these agree: the lists are made of the records that look-ups find, each
record occurs once, and the counts are lengths of those lists. The stages after the index are never
missed, so an id that the index knows is never reported as unknown. Main statement: `coherent_run`.
-/

namespace ShopFloor

namespace Record

/-- The order of listing is transitive. -/
theorem listedBefore_trans (a b c : Record) (hab : a.listedBefore b = true)
    (hbc : b.listedBefore c = true) : a.listedBefore c = true := by
  simp only [listedBefore, Bool.or_eq_true, Bool.and_eq_true, decide_eq_true_eq, beq_iff_eq]
    at hab hbc ⊢
  rcases hab with hab | ⟨hab, hid⟩ <;> rcases hbc with hbc | ⟨hbc, hid'⟩
  · exact .inl (by omega)
  · exact .inl (by omega)
  · exact .inl (by omega)
  · exact .inr ⟨hab.trans hbc, String.le_trans hid hid'⟩

/-- Of two records one is listed before the other. -/
theorem listedBefore_total (a b : Record) : (a.listedBefore b || b.listedBefore a) = true := by
  simp only [listedBefore, Bool.or_eq_true, Bool.and_eq_true, decide_eq_true_eq, beq_iff_eq]
  rcases Int.lt_trichotomy a.interval.start b.interval.start with h | h | h
  · exact .inl (.inl h)
  · rcases String.le_total a.id b.id with hid | hid
    · exact .inl (.inr ⟨h, hid⟩)
    · exact .inr (.inr ⟨h.symm, hid⟩)
  · exact .inr (.inl h)

/-- Two records that are listed before each other have the same id. -/
theorem id_eq_of_listedBefore {a b : Record} (hab : a.listedBefore b = true)
    (hba : b.listedBefore a = true) : a.id = b.id := by
  simp only [listedBefore, Bool.or_eq_true, Bool.and_eq_true, decide_eq_true_eq, beq_iff_eq]
    at hab hba
  rcases hab with hab | ⟨_, hid⟩ <;> rcases hba with hba | ⟨_, hid'⟩
  · omega
  · omega
  · omega
  · exact String.le_antisymm hid hid'

end Record

namespace Ledger

/-- Listing only reorders. -/
theorem listed_perm (records : List Record) : (listed records).Perm records :=
  List.mergeSort_perm records _

/-- A record is listed exactly when it is among the records. -/
@[simp] theorem mem_listed {records : List Record} {r : Record} :
    r ∈ listed records ↔ r ∈ records :=
  (listed_perm records).mem_iff

/-- The records of a list stand in the order of listing. -/
theorem listed_pairwise (records : List Record) :
    (listed records).Pairwise fun a b => a.listedBefore b = true :=
  List.pairwise_mergeSort Record.listedBefore_trans Record.listedBefore_total records

/-- Among records with different ids, listing a part is taking that part of the list. -/
theorem listed_filter {records : List Record} (hnodup : (records.map (·.id)).Nodup)
    (p : Record → Bool) : listed (records.filter p) = (listed records).filter p := by
  have hperm : (listed (records.filter p)).Perm ((listed records).filter p) :=
    (listed_perm _).trans ((listed_perm records).filter p).symm
  refine hperm.eq_of_pairwise (fun a b ha hb hab hba => ?_) (listed_pairwise _)
    ((listed_pairwise records).filter p)
  have ha' := List.mem_of_mem_filter (mem_listed.mp ha)
  have hb' := mem_listed.mp (List.mem_of_mem_filter hb)
  exact List.inj_on_of_nodup_map hnodup ha' hb' (Record.id_eq_of_listedBefore hab hba)

/-- Records with different ids are listed alike, whatever order they are in. -/
theorem listed_eq_of_perm {records others : List Record} (hperm : others.Perm records)
    (hnodup : (records.map (·.id)).Nodup) : listed others = listed records := by
  have hlisted := (listed_perm others).trans (hperm.trans (listed_perm records).symm)
  refine hlisted.eq_of_pairwise (fun a b ha hb hab hba => ?_) (listed_pairwise _)
    (listed_pairwise _)
  have ha' := hperm.mem_iff.mp (mem_listed.mp ha)
  exact List.inj_on_of_nodup_map hnodup ha' (mem_listed.mp hb)
    (Record.id_eq_of_listedBefore hab hba)

/-- A resource lists the records of its book. -/
theorem mem_recordsFor {ledger : Ledger} {resource : String} {r : Record} :
    r ∈ ledger.recordsFor resource ↔ r ∈ (ledger.book resource).records := mem_listed

/-- The records that a resource lists are open as those of its book. -/
theorem countP_recordsFor (ledger : Ledger) (resource : String) (instant : Int) :
    (ledger.recordsFor resource).countP (·.occupiesAt instant) =
      (ledger.book resource).openAt instant := by
  rw [Book.openAt_eq_countP]
  exact (listed_perm _).countP_eq _

/-- Every record is at one of the stages. -/
theorem sum_countP_status (records : List Record) :
    (Status.all.map fun status => records.countP (·.status = status)).sum = records.length := by
  induction records with
  | nil => rfl
  | cons r rest ih =>
    have hone : ∀ status : Status, (r :: rest).countP (·.status = status) =
        rest.countP (·.status = status) + if r.status = status then 1 else 0 := fun status => by
      rw [List.countP_cons]
      simp only [decide_eq_true_eq]
    rw [List.length_cons, ← ih]
    simp only [Status.all, hone, List.map_cons, List.map_nil, List.sum_cons, List.sum_nil]
    cases r.status <;> simp only [reduceCtorEq, if_true, if_false] <;> omega

/-- Leaving out the counts that are zero leaves the sum. -/
theorem sum_filter_ne_zero (counts : List (Status × Nat)) :
    ((counts.filter (·.2 ≠ 0)).map (·.2)).sum = (counts.map (·.2)).sum := by
  induction counts with
  | nil => rfl
  | cons count rest ih =>
    by_cases h : count.2 = 0
    · rw [List.filter_cons_of_neg (by simpa using h), ih, List.map_cons, List.sum_cons, h, zero_add]
    · rw [List.filter_cons_of_pos (by simpa using h), List.map_cons, List.map_cons, List.sum_cons,
        List.sum_cons, ih]

variable (ledger : Ledger)

/-- The counts of the stages add up to the number of records. -/
theorem sum_statusCounts : (ledger.statusCounts.map (·.2)).sum = ledger.records.length := by
  rw [statusCounts, sum_filter_ne_zero, List.map_map]
  exact sum_countP_status ledger.records

/-- Resources are listed in ascending order. -/
theorem resources_ascending : ledger.resources.Pairwise (· < ·) :=
  List.pairwise_map.mpr (ledger.books.ascending.filter _)

/-- The book listed with a resource is the book of the resource. -/
theorem book_of_mem_entries {ledger : Ledger} {entry : String × Book}
    (h : entry ∈ ledger.books.entries) : ledger.book entry.1 = entry.2 := by
  rw [book, NameMap.mem_entries_iff.mp h, Option.getD_some]

/-- Leaving out the books without records leaves all records. -/
theorem flatMap_records_filter {entries : List (String × Book)}
    (h : ∀ entry ∈ entries, ledger.book entry.1 = entry.2) :
    (entries.map (·.2)).flatMap (·.records) =
      ((entries.filter fun entry => !entry.2.records.isEmpty).map (·.1)).flatMap
        fun resource => (ledger.book resource).records := by
  induction entries with
  | nil => rfl
  | cons entry rest ih =>
    obtain ⟨hentry, hrest⟩ := List.forall_mem_cons.mp h
    by_cases hempty : entry.2.records.isEmpty = true
    · rw [List.filter_cons_of_neg (by simp [hempty]), List.map_cons, List.flatMap_cons,
        List.isEmpty_iff.mp hempty, List.nil_append, ih hrest]
    · rw [List.filter_cons_of_pos (by simp [hempty]), List.map_cons, List.map_cons,
        List.flatMap_cons, List.flatMap_cons, hentry, ih hrest]

/-- All records are those of the listed resources, resource by resource. -/
theorem records_eq_flatMap :
    ledger.records = ledger.resources.flatMap fun resource => (ledger.book resource).records :=
  flatMap_records_filter ledger fun _ => book_of_mem_entries

/-- The number of records is the sum of the numbers of the listed resources. -/
theorem length_records : ledger.records.length =
    (ledger.resources.map fun resource => (ledger.recordsFor resource).length).sum := by
  rw [records_eq_flatMap, List.length_flatMap]
  exact congrArg List.sum (List.map_congr_left fun resource _ =>
    ((listed_perm (ledger.book resource).records).length_eq).symm)

namespace Consistent

variable {ledger : Ledger}

/-- No id occurs twice in the whole ledger. -/
theorem nodup_records (h : ledger.Consistent) : (ledger.records.map (·.id)).Nodup := by
  rw [records_eq_flatMap, List.map_flatMap, List.nodup_flatMap]
  refine ⟨fun resource _ => h.nodup_ids resource, ?_⟩
  refine (resources_ascending ledger).imp fun {a b} hlt id ha hb => ?_
  have hsame := ((h.index_iff id a).mpr ha).symm.trans ((h.index_iff id b).mpr hb)
  rw [Option.some.inj hsame] at hlt
  exact String.lt_irrefl b hlt

/-- The index knows exactly the ids of the records. -/
theorem mem_names_iff (h : ledger.Consistent) {id : String} :
    id ∈ ledger.index.names ↔ id ∈ ledger.records.map (·.id) := by
  have hname : id ∈ ledger.index.names ↔ ∃ resource, ledger.index.get? id = some resource := by
    simp only [NameMap.names, List.mem_map, Prod.exists, exists_and_right, exists_eq_right,
      NameMap.mem_entries_iff]
  rw [hname, records_eq_flatMap, List.map_flatMap, List.mem_flatMap]
  constructor
  · intro hknown
    obtain ⟨resource, hindex⟩ := hknown
    have hmem := (h.index_iff id resource).mp hindex
    refine ⟨resource, mem_resources_iff.mpr fun hnil => ?_, hmem⟩
    rw [hnil] at hmem
    cases hmem
  · intro hlisted
    obtain ⟨resource, _, hmem⟩ := hlisted
    exact ⟨resource, (h.index_iff id resource).mpr hmem⟩

/-- The size is the number of records. -/
theorem size_eq (h : ledger.Consistent) : ledger.size = ledger.records.length := by
  have hnodup : ledger.index.names.Nodup :=
    (List.pairwise_map.mpr ledger.index.ascending).imp fun {a b} hlt heq => by
      rw [heq] at hlt
      exact String.lt_irrefl b hlt
  have hperm := (List.perm_ext_iff_of_nodup hnodup h.nodup_records).mpr fun _ => h.mem_names_iff
  have hlength := hperm.length_eq
  rw [List.length_map] at hlength
  rw [← hlength]
  exact (List.length_map _).symm

/-- An id that the index knows is found in an open book. -/
theorem found (h : ledger.Consistent) {id resource : String}
    (hindex : ledger.index.get? id = some resource) :
    ∃ book record, ledger.books.get? resource = some book ∧ book.find? id = some record := by
  obtain ⟨record, hmem, hid⟩ := List.mem_map.mp ((h.index_iff id resource).mp hindex)
  have hfind := (Book.find?_eq_some_iff (h.nodup_ids resource)).mpr ⟨hmem, hid⟩
  cases hopen : ledger.books.get? resource with
  | none =>
    rw [book, hopen] at hmem
    cases hmem
  | some book =>
    rw [Ledger.book, hopen] at hfind
    exact ⟨book, record, rfl, hfind⟩

end Consistent

/-- All queries of a ledger tell the same story. -/
structure Coherent (ledger : Ledger) : Prop where
  /-- No id occurs twice anywhere. -/
  nodup_ids : (ledger.records.map (·.id)).Nodup
  /-- The index leads to a resource exactly when a record of it has the id. -/
  index_iff : ∀ id resource, ledger.index.get? id = some resource ↔
    ∃ r ∈ ledger.recordsFor resource, r.id = id
  /-- The records of a resource are of that resource. -/
  resource_eq : ∀ resource, ∀ r ∈ ledger.recordsFor resource, r.resource = resource
  /-- A record is found under an id exactly when its resource lists it with that id. -/
  get?_iff : ∀ id r, ledger.get? id = some r ↔ r ∈ ledger.recordsFor r.resource ∧ r.id = id
  /-- The conflicted records of a resource are those among its records, in the same order. -/
  conflictsFor_eq : ∀ resource,
    ledger.conflictsFor resource = (ledger.recordsFor resource).filter (·.isConflicted)
  /-- Their number is the conflict count. -/
  length_conflictsFor : ∀ resource,
    (ledger.conflictsFor resource).length = ledger.conflictCount resource
  /-- The resources are listed in strictly ascending order. -/
  resources_ascending : ledger.resources.Pairwise (· < ·)
  /-- A resource is listed exactly when it lists records. -/
  mem_resources_iff : ∀ resource, resource ∈ ledger.resources ↔ ledger.recordsFor resource ≠ []
  /-- The size is the number of records that the resources list. -/
  size_eq_sum_lengths : ledger.size =
    (ledger.resources.map fun resource => (ledger.recordsFor resource).length).sum
  /-- The size is the sum of the counts of the stages. -/
  size_eq_sum_counts : ledger.size = (ledger.statusCounts.map (·.2)).sum
  /-- An id that the index knows is found in an open book. -/
  found : ∀ id resource, ledger.index.get? id = some resource →
    ∃ book record, ledger.books.get? resource = some book ∧ book.find? id = some record
  /-- A move of a record that the index knows is never refused for an unknown record. -/
  transition_ne_notFound : ∀ id, ledger.index.contains id = true → ∀ limits next other,
    (ledger.transition limits id next).2 ≠ .error (.recordNotFound other)
  /-- A removal of a record that the index knows is never refused for an unknown record. -/
  remove_ne_notFound : ∀ id, ledger.index.contains id = true → ∀ other,
    (ledger.remove id).2 ≠ .error (.recordNotFound other)

namespace Consistent

variable {ledger : Ledger}

/-- A move of a record that the index knows is refused for its limit, its stage or its conflict. -/
theorem transition_ne_notFound (h : ledger.Consistent) {id : String}
    (hknown : ledger.index.contains id = true) (limits : Limits) (next : Status) (other : String) :
    (ledger.transition limits id next).2 ≠ .error (.recordNotFound other) := by
  obtain ⟨resource, hindex⟩ := Option.isSome_iff_exists.mp hknown
  obtain ⟨book, record, hopen, hfind⟩ := h.found hindex
  have hbook : ledger.book resource = book := by rw [Ledger.book, hopen, Option.getD_some]
  rw [transition]
  cases hlimit : limits.of resource with
  | error fault =>
    have hfault := (Limits.of_eq_error_iff.mp hlimit).2
    simp [admitTransition, hindex, hlimit, hfault, bind, Except.bind]
  | ok limit =>
    rw [admitTransition_of_found next hindex hlimit (hbook ▸ hfind)]
    split
    next fault hfault =>
      split at hfault
      next => cases hfault; simp
      next =>
        split at hfault
        next => cases hfault; simp
        next => cases hfault
    next => simp

/-- A removal of a record that the index knows is refused for its stage only. -/
theorem remove_ne_notFound (h : ledger.Consistent) {id : String}
    (hknown : ledger.index.contains id = true) (other : String) :
    (ledger.remove id).2 ≠ .error (.recordNotFound other) := by
  obtain ⟨resource, hindex⟩ := Option.isSome_iff_exists.mp hknown
  obtain ⟨book, record, hopen, hfind⟩ := h.found hindex
  have hbook : ledger.book resource = book := by rw [Ledger.book, hopen, Option.getD_some]
  rw [remove, locate_eq_ok_iff.mpr ⟨hindex, hbook ▸ hfind⟩]
  dsimp only
  split <;> simp

/-- A consistent ledger is coherent. -/
theorem coherent (h : ledger.Consistent) : ledger.Coherent where
  nodup_ids := h.nodup_records
  index_iff id resource := by
    rw [h.index_iff, List.mem_map]
    simp only [mem_recordsFor]
  resource_eq resource r hr := h.resource_eq resource r (mem_recordsFor.mp hr)
  get?_iff id r := by rw [h.get?_eq_some_iff, mem_recordsFor]
  conflictsFor_eq resource := listed_filter (h.nodup_ids resource) _
  length_conflictsFor resource :=
    (listed_perm _).length_eq.trans (Book.length_conflicts (ledger.book resource))
  resources_ascending := ledger.resources_ascending
  mem_resources_iff resource := by
    rw [Ledger.mem_resources_iff, ← List.length_pos_iff, ← List.length_pos_iff, recordsFor,
      (listed_perm _).length_eq]
  size_eq_sum_lengths := h.size_eq.trans ledger.length_records
  size_eq_sum_counts := h.size_eq.trans ledger.sum_statusCounts.symm
  found _ _ := h.found
  transition_ne_notFound _ := h.transition_ne_notFound
  remove_ne_notFound _ := h.remove_ne_notFound

end Consistent

/-- All queries tell the same story in every ledger that a run reaches, whatever the requests, their
answers and the limits at each of them. -/
theorem coherent_run (calls : List Call) : (empty.run calls).Coherent :=
  (consistent_run calls).coherent

end Ledger

end ShopFloor
