import Mathlib
import ShopFloor.Proofs.Ledger.Flags

/-!
# Conflict counts move as accounted for

The conflict count of a resource is taken from its book each time, whereas an account names the
flags that an insertion raised. The two agree: an insertion adds as many conflicts as its account
names, a move takes away the flag that its record had and adds the one that it has then, and a
removal takes away the flag of its record. So no insertion lowers the count of its resource, no
removal raises it, and the other resources are not concerned. Main statements:
`Book.conflictCount_add`, `Consistent.affected_insert`, `conflictCount_accounted`.
-/

namespace ShopFloor

/-- What a record adds to the conflict count of a resource. -/
def Record.flagAt (r : Record) (resource : String) : Nat :=
  if r.resource = resource ∧ r.status = .conflicted then 1 else 0

/-- A record adds to its own resource what its flag counts. -/
theorem Record.flagAt_self (r : Record) :
    r.flagAt r.resource = if r.isConflicted then 1 else 0 := by
  simp [flagAt, isConflicted]

/-- A record adds nothing to another resource. -/
theorem Record.flagAt_of_ne {r : Record} {resource : String} (hother : ¬ resource = r.resource) :
    r.flagAt resource = 0 :=
  if_neg fun h => hother h.1.symm

namespace Book

/-- The records after a move are the one that moved and the others. -/
theorem perm_setStatus {book : Book} (hnodup : (book.records.map (·.id)).Nodup) {record : Record}
    (hmem : record ∈ book.records) (next : Status) :
    (book.setStatus record.id next).records.Perm
      (record.withStatus next :: book.others record.id) := by
  have hothers : (book.others record.id).map (·.moved record.id next) = book.others record.id := by
    refine (List.map_congr_left fun r hr => ?_).trans (List.map_id _)
    exact if_neg (by simpa using (List.mem_filter.mp hr).2)
  have hmoved := (perm_cons_others hnodup hmem).map (·.moved record.id next)
  rwa [List.map_cons, hothers, Record.moved, if_pos rfl] at hmoved

/-- The conflict count is that of the others and the flag of the record. -/
theorem conflictCount_eq_others {book : Book} (hnodup : (book.records.map (·.id)).Nodup)
    {record : Record} (hmem : record ∈ book.records) :
    book.conflictCount = (book.others record.id).countP (·.isConflicted) +
      if record.isConflicted then 1 else 0 := by
  rw [conflictCount, (perm_cons_others hnodup hmem).countP_eq, List.countP_cons]

/-- After a move the conflict count is that of the others and the flag that the record has then. -/
theorem conflictCount_setStatus {book : Book} (hnodup : (book.records.map (·.id)).Nodup)
    {record : Record} (hmem : record ∈ book.records) (next : Status) :
    (book.setStatus record.id next).conflictCount =
      (book.others record.id).countP (·.isConflicted) +
        if (record.withStatus next).isConflicted then 1 else 0 := by
  rw [conflictCount, (perm_setStatus hnodup hmem next).countP_eq, List.countP_cons]

/-- An insertion adds as many conflicts as its account names. -/
theorem conflictCount_add (book : Book) (limit : Nat) (record : Record) :
    (book.add limit record).conflictCount =
      book.conflictCount + (book.insertion limit record).affected.length := by
  -- of the others, those are flagged that were so before and those that the account names
  have hbefore : book.records.countP (fun r =>
      (book.kept limit record r).isConflicted && r.isConflicted) = book.conflictCount :=
    List.countP_congr fun r _ => by
      simpa using book.isConflicted_kept limit record
  have hkept : (book.records.filter fun r => (book.kept limit record r).isConflicted).length =
      book.conflictCount + (book.insertion limit record).newlyConflicted.length := by
    rw [newlyConflicted_insertion, List.length_map, ← List.countP_eq_length_filter,
      ← List.countP_eq_length_filter, List.countP_eq_countP_filter_add _ _ (·.isConflicted),
      List.countP_filter, List.countP_filter, hbefore]
  have hids := congrArg List.length (ids_conflicts_add book limit record)
  rw [List.length_map, length_conflicts, List.length_append, List.length_map, hkept] at hids
  rw [hids, Insertion.affected, conflicted_insertion, List.length_append, Nat.add_assoc,
    Nat.add_comm (List.length _)]
  rfl

end Book

namespace Ledger

/-- The conflict counts after an insertion that is answered. -/
theorem conflictCount_insert {ledger : Ledger} {limits : Limits} {record : Record}
    {expected : Option Nat} {account : Insertion}
    (hanswer : (ledger.insert limits record expected).2 = .ok account) (resource : String) :
    (ledger.insert limits record expected).1.conflictCount resource =
      ledger.conflictCount resource +
        if resource = record.resource then account.affected.length else 0 := by
  obtain ⟨-, -, rfl, hafter⟩ := storing_of_answered hanswer
  rw [hafter, conflictCount, book_storing]
  split
  next howner => rw [Book.conflictCount_add, conflictCount, howner]
  next => rfl

namespace Consistent

variable {ledger : Ledger} (h : ledger.Consistent) {limits : Limits} {id : String}

include h

/-- The ids that the account of an insertion names are those that are flagged afterwards and were
not flagged before, once each. -/
theorem affected_insert {record : Record} {expected : Option Nat} {account : Insertion}
    (hanswer : (ledger.insert limits record expected).2 = .ok account) :
    let after := (ledger.insert limits record expected).1
    account.affected.Nodup ∧ ∀ id, id ∈ account.affected ↔
      (∃ r, after.get? id = some r ∧ r.status = .conflicted) ∧
        ¬ ∃ r, ledger.get? id = some r ∧ r.status = .conflicted := by
  intro after
  have hafter : after.Consistent := h.effect (insert_effect ledger limits record expected)
  obtain ⟨-, -, hraised, hnew, -⟩ := h.flagged_insert hanswer
  rw [hraised] at hnew
  refine ⟨?_, fun id => ?_⟩
  · rw [← hraised]
    exact hafter.nodup_raised ledger record.resource record.id
  · have hflagged : ∀ {l : Ledger}, l.Consistent →
        (id ∈ l.flagged ↔ ∃ r, l.get? id = some r ∧ r.status = .conflicted) := fun hl => by
      simp only [hl.mem_flagged_iff_get?, Record.isConflicted, decide_eq_true_iff]
    rw [← hflagged hafter, ← hflagged h, ← Finset.mem_sdiff, ← hnew, List.mem_toFinset]

/-- A removal that is answered takes out the record of the answer with its flag. -/
theorem conflictCount_remove {r : Record} (hanswer : (ledger.remove id).2 = .ok r) :
    let after := (ledger.remove id).1
    ledger.get? id = some r ∧
      (∀ resource, after.conflictCount resource + r.flagAt resource =
        ledger.conflictCount resource) ∧
      ∀ other, after.get? other = if other = id then none else ledger.get? other := by
  obtain ⟨hget, hindex, hafter⟩ := h.dropping_of_answered hanswer
  obtain ⟨hr, rfl⟩ := h.get?_eq_some_iff.mp hget
  dsimp only
  rw [hafter]
  refine ⟨hget, fun resource => ?_, h.get?_dropping_eq hindex⟩
  rw [conflictCount, conflictCount, book_dropping]
  split
  next howner =>
    rw [howner, Record.flagAt_self, Book.conflictCount_eq_others (h.nodup_ids _) hr]
    rfl
  next hother => rw [Record.flagAt_of_ne hother, Nat.add_zero]

/-- A move that is answered replaces the flag of its record by that of the record of the answer. -/
theorem conflictCount_transition {next : Status} {moved : Record}
    (hanswer : (ledger.transition limits id next).2 = .ok moved) :
    let after := (ledger.transition limits id next).1
    ∃ r, ledger.get? id = some r ∧ moved = r.withStatus next ∧ ∀ resource,
      after.conflictCount resource + r.flagAt resource =
        ledger.conflictCount resource + moved.flagAt resource := by
  obtain ⟨r, hget, -, rfl, hafter⟩ := h.moving_of_answered hanswer
  obtain ⟨hr, rfl⟩ := h.get?_eq_some_iff.mp hget
  have hnodup := h.nodup_ids r.resource
  dsimp only
  rw [hafter]
  refine ⟨r, hget, rfl, fun resource => ?_⟩
  rw [conflictCount, conflictCount, book_moving]
  split
  next howner =>
    have hflag := (r.withStatus next).flagAt_self
    rw [Record.resource_withStatus] at hflag
    rw [howner, Record.flagAt_self, hflag, Book.conflictCount_setStatus hnodup hr,
      Book.conflictCount_eq_others hnodup hr]
    exact Nat.add_right_comm _ _ _
  next hother =>
    rw [Record.flagAt_of_ne hother, Record.flagAt_of_ne (r := r.withStatus next) hother]

end Consistent

/-- In every ledger that a run reaches, under whatever limits at each call, and for the counts of
all resources. An insertion that is answered adds to the count of its resource the number of ids
that its account names, which are those flagged afterwards and not before, once each. A removal
takes away the flag of its record, if it has one, and leaves the other records as they are. A move
takes away the flag of its record and adds that of the record as it is then. -/
theorem conflictCount_accounted (calls : List Call) (limits : Limits) :
    let before := empty.run calls
    (∀ record expected account, (before.insert limits record expected).2 = .ok account →
      let after := (before.insert limits record expected).1
      (∀ resource, after.conflictCount resource = before.conflictCount resource +
        if resource = record.resource then account.affected.length else 0) ∧
      account.affected.Nodup ∧ ∀ id, id ∈ account.affected ↔
        (∃ r, after.get? id = some r ∧ r.status = .conflicted) ∧
          ¬ ∃ r, before.get? id = some r ∧ r.status = .conflicted) ∧
    (∀ id r, (before.remove id).2 = .ok r →
      let after := (before.remove id).1
      before.get? id = some r ∧
      (∀ resource, after.conflictCount resource + r.flagAt resource =
        before.conflictCount resource) ∧
      ∀ other, after.get? other = if other = id then none else before.get? other) ∧
    (∀ id next moved, (before.transition limits id next).2 = .ok moved →
      let after := (before.transition limits id next).1
      ∃ r, before.get? id = some r ∧ moved = r.withStatus next ∧ ∀ resource,
        after.conflictCount resource + r.flagAt resource =
          before.conflictCount resource + moved.flagAt resource) := by
  intro before
  have hconsistent : before.Consistent := consistent_run calls
  refine ⟨fun record expected account hanswer => ?_,
    fun id r => hconsistent.conflictCount_remove,
    fun id next moved => hconsistent.conflictCount_transition⟩
  exact ⟨conflictCount_insert hanswer, hconsistent.affected_insert hanswer⟩

/-- The second order for the press raises two flags, its own and that of the first, and its
withdrawal takes away its own alone. An order that has the press to itself is flagged by a move. -/
theorem conflictCount_accounted_press :
    let one := empty.run (pressCalls.take 1)
    let two := empty.run pressCalls
    (one.insert pressLimits (pressOrder "b") none).1.conflictCount "press" = 2 ∧
      (two.remove "b").1.conflictCount "press" = 1 ∧
      (one.transition pressLimits "a" .conflicted).1.conflictCount "press" = 1 := by
  have hinsert : ((empty.run (pressCalls.take 1)).insert pressLimits (pressOrder "b") none).2 =
      .ok ⟨"b", "press", 1, 2, true, ["a"], 2, 2⟩ := by cbv
  have hremove : ((empty.run pressCalls).remove "b").2 =
      .ok ((pressOrder "b").withStatus .conflicted) := by cbv
  have hmove : ((empty.run (pressCalls.take 1)).transition pressLimits "a" .conflicted).2 =
      .ok ((pressOrder "a").withStatus .conflicted) := by cbv
  have hplanned : (empty.run (pressCalls.take 1)).get? "a" = some (pressOrder "a") := by cbv
  have hnone : (empty.run (pressCalls.take 1)).conflictCount "press" = 0 := by cbv
  have hboth : (empty.run pressCalls).conflictCount "press" = 2 := by cbv
  intro one two
  have hraised := ((conflictCount_accounted (pressCalls.take 1) pressLimits).1 _ _ _ hinsert).1
  have hcleared := ((conflictCount_accounted pressCalls pressLimits).2.1 _ _ hremove).2.1
  obtain ⟨r, hget, -, hmoved⟩ :=
    (conflictCount_accounted (pressCalls.take 1) pressLimits).2.2 _ _ _ hmove
  rw [hplanned] at hget
  cases hget
  refine ⟨?_, ?_, ?_⟩
  · rw [hraised "press", hnone]
    rfl
  · exact Nat.succ.inj ((hcleared "press").trans hboth)
  · have hcount := hmoved "press"
    rwa [hnone] at hcount

end Ledger

end ShopFloor
