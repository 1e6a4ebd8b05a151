import Mathlib
import ShopFloor.Proofs.Ledger.Coherence
import ShopFloor.Proofs.Ledger.Lifecycle
import ShopFloor.Proofs.Ledger.Revision

/-!
# Which records are flagged

The ids of the conflicted records of a ledger form a set, and each change of the ledger changes this
set by what its answer tells: an insertion adds the ids that its account names, which are those of
the records that it flagged, the new one first and the others in the order of their insertion; a
move adds or takes away the id of the record that moved, and a removal takes it away. Main
statements: `flagged_insert`, `flagged_transition`, `flagged_remove`.
-/

namespace ShopFloor

namespace Book

variable (book : Book) (limit : Nat) (record : Record)

/-- The account tells whether the new record is stored as conflicted. -/
theorem conflicted_insertion :
    (book.insertion limit record).conflicted = (book.stored limit record).isConflicted := by
  show (decide (limit < peakWith book.records record) || record.isConflicted) = _
  unfold stored
  split
  next hover => rw [decide_eq_true hover, Bool.true_or, Record.isConflicted_withStatus]
  next hnot => rw [decide_eq_false hnot, Bool.false_or]

/-- The account names the other records that the insertion flagged. -/
theorem newlyConflicted_insertion : (book.insertion limit record).newlyConflicted =
    (book.records.filter fun r =>
      (book.kept limit record r).isConflicted && !r.isConflicted).map (·.id) := by
  show (if limit < peakWith book.records record then _ else []) = _
  by_cases hover : limit < peakWith book.records record
  · rw [if_pos hover, newlyFlagged]
    refine congrArg (List.map _) (List.filter_congr fun r _ => ?_)
    unfold kept
    by_cases hway : inTheWay record r = true
    · rw [if_pos ⟨hover, hway⟩, hway, Record.isConflicted_withStatus]
    · rw [if_neg fun h => hway h.2, Bool.eq_false_iff.mpr hway]
      cases r.isConflicted <;> rfl
  · have hkept : ∀ r, book.kept limit record r = r := fun r => if_neg fun h => hover h.1
    rw [if_neg hover]
    simp [hkept]

/-- The conflicted records after an insertion: the others in their order, then the new one. -/
theorem ids_conflicts_add : (book.add limit record).conflicts.map (·.id) =
    (book.records.filter fun r => (book.kept limit record r).isConflicted).map (·.id) ++
      if (book.stored limit record).isConflicted then [record.id] else [] := by
  have hids : (fun r : Record => r.id) ∘ book.kept limit record = fun r => r.id :=
    funext fun r => id_kept book limit record r
  rw [conflicts, records_add, List.filter_append, List.map_append, List.filter_map, List.map_map,
    hids, List.filter_singleton]
  refine congrArg _ ?_
  split <;> simp_all

end Book

namespace Ledger

variable {ledger : Ledger}

/-- The ids of the conflicted records. -/
def flagged (ledger : Ledger) : Finset String :=
  ((ledger.records.filter (·.isConflicted)).map (·.id)).toFinset

/-- The ids of a resource that are flagged in a ledger and were not in an earlier one: a given one
first, if it is among them, then the others in the order of their insertion. -/
def raised (before after : Ledger) (resource first : String) : List String :=
  let fresh := ((after.book resource).conflicts.map (·.id)).filter (· ∉ before.flagged)
  fresh.filter (· = first) ++ fresh.filter (· ≠ first)

/-- An id is flagged when some book holds a conflicted record under it. -/
theorem mem_flagged_iff {id : String} :
    id ∈ ledger.flagged ↔ ∃ resource, id ∈ (ledger.book resource).conflicts.map (·.id) := by
  simp only [flagged, Book.conflicts, List.mem_toFinset, List.mem_map, List.mem_filter,
    records_eq_flatMap, List.mem_flatMap]
  constructor
  · intro hlisted
    obtain ⟨r, ⟨⟨resource, _, hr⟩, hflag⟩, hid⟩ := hlisted
    exact ⟨resource, r, ⟨hr, hflag⟩, hid⟩
  · intro hheld
    obtain ⟨resource, r, ⟨hr, hflag⟩, hid⟩ := hheld
    exact ⟨r, ⟨⟨resource, mem_resources_iff.mpr (List.ne_nil_of_mem hr), hr⟩, hflag⟩, hid⟩

/-- The flags that are raised are those of the resource that were not there before. -/
theorem mem_raised_iff {before after : Ledger} {resource first id : String} :
    id ∈ raised before after resource first ↔
      id ∈ (after.book resource).conflicts.map (·.id) ∧ id ∉ before.flagged := by
  simp only [raised, List.mem_append, List.mem_filter, decide_eq_true_iff]
  by_cases hfirst : id = first <;> simp [hfirst]

/-- Ledgers that are alike have the same flags. -/
theorem Alike.flagged_eq {next : Ledger} (h : ledger.Alike next) :
    next.flagged = ledger.flagged := by
  ext id
  simp only [mem_flagged_iff, h.book]

namespace Consistent

variable (h : ledger.Consistent)

include h

/-- The flags that are raised are listed once each. -/
theorem nodup_raised (before : Ledger) (resource first : String) :
    (raised before ledger resource first).Nodup := by
  have hids : ((ledger.book resource).conflicts.map (·.id)).Nodup :=
    (h.nodup_ids resource).sublist (List.filter_sublist.map _)
  have hfresh := hids.filter (· ∉ before.flagged)
  refine List.nodup_append.mpr ⟨hfresh.filter _, hfresh.filter _, fun a ha b hb heq => ?_⟩
  have hfirst : a = first := by simpa using (List.mem_filter.mp ha).2
  have hother : b ≠ first := by simpa using (List.mem_filter.mp hb).2
  exact hother (heq.symm.trans hfirst)

/-- An id is flagged when the record looked up under it is conflicted. -/
theorem mem_flagged_iff_get? {id : String} :
    id ∈ ledger.flagged ↔ ∃ r, ledger.get? id = some r ∧ r.isConflicted = true := by
  simp only [mem_flagged_iff, Book.conflicts, List.mem_map, List.mem_filter]
  constructor
  · intro hheld
    obtain ⟨resource, r, ⟨hr, hflag⟩, rfl⟩ := hheld
    exact ⟨r, h.get?_of_mem hr, hflag⟩
  · intro hfound
    obtain ⟨r, hget, hflag⟩ := hfound
    obtain ⟨hr, hid⟩ := h.get?_eq_some_iff.mp hget
    exact ⟨r.resource, r, ⟨hr, hflag⟩, hid⟩

/-- The id of a record in a book is flagged when the record is. -/
theorem id_mem_flagged_iff {resource : String} {r : Record}
    (hr : r ∈ (ledger.book resource).records) :
    r.id ∈ ledger.flagged ↔ r.isConflicted = true := by
  simp only [h.mem_flagged_iff_get?, h.get?_of_mem hr, Option.some.injEq, exists_eq_left']

/-- The flags that an insertion raises are those that its account names. -/
theorem raised_storing {limit : Nat} {record : Record}
    (hfresh : ledger.index.get? record.id = none) :
    raised ledger (ledger.storing limit record) record.resource record.id =
      ((ledger.book record.resource).insertion limit record).affected := by
  have hbook : (ledger.storing limit record).book record.resource =
      (ledger.book record.resource).add limit record := by
    rw [book_storing, if_pos rfl]
  have hnew : record.id ∉ ledger.flagged := by
    intro hflag
    obtain ⟨r, hget, _⟩ := h.mem_flagged_iff_get?.mp hflag
    rw [h.get?_eq_none_iff.mpr hfresh] at hget
    cases hget
  -- Among the others those are new that were not flagged before, and none has the new id.
  have hothers : ((((ledger.book record.resource).records.filter fun r =>
      ((ledger.book record.resource).kept limit record r).isConflicted).map (·.id)).filter
        (· ∉ ledger.flagged)) =
      ((ledger.book record.resource).insertion limit record).newlyConflicted := by
    rw [Book.newlyConflicted_insertion, List.filter_map, List.filter_filter]
    refine congrArg (List.map _) (List.filter_congr fun r hr => ?_)
    simp [h.id_mem_flagged_iff hr, Bool.and_comm]
  have hdistinct : ∀ id ∈ ((ledger.book record.resource).insertion limit record).newlyConflicted,
      id ≠ record.id := by
    intro id hid heq
    rw [Book.newlyConflicted_insertion, List.mem_map] at hid
    obtain ⟨r, hr, hrid⟩ := hid
    have hmem : record.id ∈ (ledger.book record.resource).records.map (·.id) :=
      List.mem_map.mpr ⟨r, List.mem_of_mem_filter hr, hrid.trans heq⟩
    exact h.not_mem_ids hfresh record.resource hmem
  have hnone : ((ledger.book record.resource).insertion limit record).newlyConflicted.filter
      (· = record.id) = [] :=
    List.filter_eq_nil_iff.mpr fun id hid => by simpa using hdistinct id hid
  have hall : ((ledger.book record.resource).insertion limit record).newlyConflicted.filter
      (· ≠ record.id) =
      ((ledger.book record.resource).insertion limit record).newlyConflicted :=
    List.filter_eq_self.mpr fun id hid => by simpa using hdistinct id hid
  have hown : ((ledger.book record.resource).insertion limit record).record = record.id := rfl
  rw [raised, hbook, Book.ids_conflicts_add, List.filter_append, hothers, Insertion.affected,
    Book.conflicted_insertion, List.filter_append, List.filter_append, hnone, hall, hown]
  split <;> simp [hnew]

/-- An insertion adds the flags that its account names, and clears none. -/
theorem flagged_storing {limit : Nat} {record : Record}
    (hfresh : ledger.index.get? record.id = none) :
    (ledger.storing limit record).flagged = ledger.flagged ∪
      ((ledger.book record.resource).insertion limit record).affected.toFinset := by
  ext id
  rw [Finset.mem_union, List.mem_toFinset, ← h.raised_storing hfresh, mem_raised_iff]
  constructor
  · intro hafter
    by_cases hbefore : id ∈ ledger.flagged
    · exact .inl hbefore
    · obtain ⟨resource, hid⟩ := mem_flagged_iff.mp hafter
      have howner : resource = record.resource := by
        by_contra hother
        rw [book_storing, if_neg hother] at hid
        exact hbefore (mem_flagged_iff.mpr ⟨resource, hid⟩)
      rw [howner] at hid
      exact .inr ⟨hid, hbefore⟩
  · intro hflag
    rcases hflag with hbefore | ⟨hraised, _⟩
    · obtain ⟨resource, hid⟩ := mem_flagged_iff.mp hbefore
      refine mem_flagged_iff.mpr ⟨resource, ?_⟩
      rw [book_storing]
      split
      next howner =>
        rw [howner] at hid
        obtain ⟨r, hr, hrid⟩ := List.mem_map.mp hid
        obtain ⟨hmem, hconflicted⟩ := List.mem_filter.mp hr
        rw [Book.ids_conflicts_add, ← hrid]
        refine List.mem_append_left _ (List.mem_map_of_mem (List.mem_filter.mpr ⟨hmem, ?_⟩))
        exact Book.isConflicted_kept _ _ _ hconflicted
      next => exact hid
    · exact mem_flagged_iff.mpr ⟨record.resource, hraised⟩

/-- An insertion flags records of its own resource only. -/
theorem toFinset_raised_storing {limit : Nat} {record : Record}
    (hfresh : ledger.index.get? record.id = none) :
    (raised ledger (ledger.storing limit record) record.resource record.id).toFinset =
      (ledger.storing limit record).flagged \ ledger.flagged := by
  rw [h.flagged_storing hfresh, ← h.raised_storing hfresh, Finset.union_sdiff_cancel_left]
  refine Finset.disjoint_left.mpr fun id hbefore hraised => ?_
  exact (mem_raised_iff.mp (List.mem_toFinset.mp hraised)).2 hbefore

/-- A record moved to conflicted is flagged, and any other moved record is not. -/
theorem flagged_moving {resource id : String} {next : Status} {record : Record}
    (hindex : ledger.index.get? id = some resource) (hget : ledger.get? id = some record) :
    (ledger.moving resource id next).flagged =
      if (record.withStatus next).isConflicted then ledger.flagged ∪ {id}
      else ledger.flagged.erase id := by
  ext other
  rw [(h.moving resource id next).mem_flagged_iff_get?, h.get?_moving_eq hindex hget]
  by_cases hother : other = id
  · rw [if_pos hother]
    split <;> simp_all
  · rw [if_neg hother, ← h.mem_flagged_iff_get?]
    split <;> simp [hother]

/-- A record that is taken out is flagged no longer. -/
theorem flagged_dropping {resource id : String} (hindex : ledger.index.get? id = some resource) :
    (ledger.dropping resource id).flagged = ledger.flagged.erase id := by
  ext other
  rw [(h.dropping hindex).mem_flagged_iff_get?, h.get?_dropping_eq hindex, Finset.mem_erase,
    h.mem_flagged_iff_get?]
  by_cases hother : other = id <;> simp [hother]

/-- An insertion that is answered raises the flags that the answer names. -/
theorem flagged_insert {limits : Limits} {record : Record} {expected : Option Nat}
    {insertion : Insertion}
    (hanswer : (ledger.insert limits record expected).2 = .ok insertion) :
    let next := (ledger.insert limits record expected).1
    insertion.record = record.id ∧ insertion.resource = record.resource ∧
      raised ledger next record.resource record.id = insertion.affected ∧
      (raised ledger next record.resource record.id).toFinset = next.flagged \ ledger.flagged ∧
      next.flagged = ledger.flagged ∪ insertion.affected.toFinset := by
  obtain ⟨-, hfresh, rfl, hafter⟩ := storing_of_answered hanswer
  dsimp only
  rw [hafter]
  exact ⟨rfl, rfl, h.raised_storing hfresh, h.toFinset_raised_storing hfresh,
    h.flagged_storing hfresh⟩

/-- A move that is answered flags the record of the answer if it is conflicted, and clears its flag
otherwise. -/
theorem flagged_transition {limits : Limits} {id : String} {stage : Status} {record : Record}
    (hanswer : (ledger.transition limits id stage).2 = .ok record) :
    (ledger.transition limits id stage).1.flagged =
      if record.isConflicted then ledger.flagged ∪ {record.id}
      else ledger.flagged.erase record.id := by
  obtain ⟨r, hget, hindex, rfl, hafter⟩ := h.moving_of_answered hanswer
  rw [hafter, h.flagged_moving hindex hget, Record.id_withStatus, (h.get?_eq_some_iff.mp hget).2]

/-- A removal that is answered clears the flag of the record of the answer. -/
theorem flagged_remove {id : String} {record : Record}
    (hanswer : (ledger.remove id).2 = .ok record) :
    (ledger.remove id).1.flagged = ledger.flagged.erase record.id := by
  obtain ⟨hget, hindex, hafter⟩ := h.dropping_of_answered hanswer
  rw [hafter, h.flagged_dropping hindex, (h.get?_eq_some_iff.mp hget).2]

end Consistent

end Ledger

end ShopFloor
