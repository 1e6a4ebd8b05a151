import Mathlib
import ShopFloor.Proofs.Ledger.Arrivals
import ShopFloor.Proofs.Ledger.Flags
import ShopFloor.Proofs.Ledger.InsertionOrder
import ShopFloor.Proofs.Ledger.Refusal
import ShopFloor.Proofs.Ledger.Resolution
import ShopFloor.Proofs.Ledger.Rollup

/-!
# What the account of an insertion says

An insertion decides over flags by a sweep over clipped windows, finds the records in the way by
another test, and counts flags once more for its account. All of it is read here as statements about
the queries before and after: the peak as the largest number of records open at an instant of the
new interval, the flags as the records that change, the figures as those that are shown afterwards.
A record that only overlaps others need not be open together with all of them, so the peak and the
number of records in the way differ. Main statements: `Book.isGreatest_peakWith`,
`Consistent.accounts_storing`, `add_exact`.
-/

namespace ShopFloor

namespace Book

/-- The peak of a record that occupies is the largest number of records open at an instant of its
interval, itself included. -/
theorem isGreatest_peakWith (records : List Record) {record : Record}
    (hoccupies : record.occupies = true) :
    IsGreatest {count | ∃ instant, record.interval.contains instant = true ∧
      records.countP (·.occupiesAt instant) + 1 = count} (peakWith records record) := by
  obtain ⟨hreached, hbound⟩ := Window.isGreatest_peak record.interval (occupied records)
  simp only [openAt_occupied] at hreached hbound
  rw [peakWith, if_pos hoccupies]
  constructor
  · obtain ⟨instant, hinside, hcount⟩ := hreached
    exact ⟨instant, hinside, congrArg (· + 1) hcount⟩
  · rintro count ⟨instant, hinside, rfl⟩
    exact Nat.succ_le_succ (hbound ⟨instant, hinside, rfl⟩)

/-- After a record that occupies has come in, the peak over its interval is the one that decided
over the flags. -/
theorem peak_occupied_add (book : Book) (limit : Nat) {record : Record}
    (hoccupies : record.occupies = true) :
    record.interval.peak (occupied (book.add limit record).records) =
      peakWith book.records record := by
  have hpeak := Window.isGreatest_peak record.interval (occupied (book.add limit record).records)
  refine hpeak.unique ?_
  -- at every instant of its interval the new record is open besides the others
  have hopen : ∀ instant, record.interval.contains instant = true →
      Window.openAt (occupied (book.add limit record).records) instant =
        book.records.countP (·.occupiesAt instant) + 1 := by
    intro instant hinside
    have hcount := openAt_add book limit record instant
    rwa [if_pos (Record.occupiesAt_iff.mpr ⟨hoccupies, hinside⟩), openAt_eq_countP book] at hcount
  obtain ⟨⟨instant, hinside, hreached⟩, hbound⟩ := isGreatest_peakWith book.records hoccupies
  refine ⟨⟨instant, hinside, (hopen instant hinside).trans hreached⟩, ?_⟩
  rintro count ⟨other, hother, rfl⟩
  rw [hopen other hother]
  exact hbound ⟨other, hother, rfl⟩

section Insertion

variable {book : Book} {limit : Nat} {record : Record}

/-- The account names a record of the book exactly when the insertion raised its flag. -/
theorem mem_newlyConflicted_iff (hnodup : (book.records.map (·.id)).Nodup) {r : Record}
    (hr : r ∈ book.records) : r.id ∈ (book.insertion limit record).newlyConflicted ↔
      (book.kept limit record r).isConflicted = true ∧ r.isConflicted = false := by
  rw [newlyConflicted_insertion, List.mem_map]
  simp only [List.mem_filter, Bool.and_eq_true, Bool.not_eq_true']
  constructor
  · rintro ⟨other, ⟨hother, hraised⟩, hid⟩
    rwa [← eq_of_id_eq hnodup hother hr hid]
  · intro hraised
    exact ⟨r, ⟨hr, hraised⟩, rfl⟩

/-- The records of the book that the account names are flagged, and the others are as before. -/
theorem kept_eq_of_newlyConflicted (hnodup : (book.records.map (·.id)).Nodup) {r : Record}
    (hr : r ∈ book.records) : book.kept limit record r =
      if r.id ∈ (book.insertion limit record).newlyConflicted then r.withStatus .conflicted
      else r := by
  simp only [mem_newlyConflicted_iff hnodup hr]
  unfold kept
  by_cases hway : limit < peakWith book.records record ∧ inTheWay record r = true
  · rw [if_pos hway]
    cases hflag : r.isConflicted with
    | false => simp
    | true => simp [Record.withStatus_of_isConflicted hflag]
  · rw [if_neg hway]
    cases hflag : r.isConflicted <;> simp

/-- The record is stored as it came in, and flagged if the account says so. -/
theorem stored_eq_of_conflicted : book.stored limit record =
    if (book.insertion limit record).conflicted then record.withStatus .conflicted else record := by
  rw [conflicted_insertion]
  unfold stored
  by_cases hover : limit < peakWith book.records record
  · simp [hover]
  · cases hflag : record.isConflicted with
    | false => simp [hover, hflag]
    | true => simp [hover, hflag, Record.withStatus_of_isConflicted hflag]

/-- A completed record finds no peak, and the account names no conflict. -/
theorem insertion_of_completed (hstatus : record.status = .completed) :
    (book.insertion limit record).peak = 0 ∧ (book.insertion limit record).conflicted = false ∧
      (book.insertion limit record).newlyConflicted = [] := by
  have hpeak : peakWith book.records record = 0 :=
    if_neg (by simp [Record.occupies, hstatus, Status.occupies])
  have hover : ¬ limit < peakWith book.records record := by omega
  refine ⟨hpeak, ?_, if_neg hover⟩
  show (decide (limit < peakWith book.records record) || record.isConflicted) = false
  simp [hover, Record.isConflicted, hstatus]

end Insertion

end Book

namespace Ledger

/-- What the account of an insertion says about the queries before and after it, given the ids of
the records that came in before, in order. -/
structure Accounts (arrived : List String) (before after : Ledger) (limits : Limits)
    (record : Record) (account : Insertion) : Prop where
  /-- The account names the record, its resource and the limit of the resource. -/
  names : account.record = record.id ∧ account.resource = record.resource ∧
    account.limit = limits.capacity record.resource
  /-- For a record that occupies, the peak is the largest number of records of the resource that
  occupy it at an instant of the interval, the new one included. -/
  peak : record.occupies = true → IsGreatest {count | ∃ instant,
    record.interval.contains instant = true ∧
      (before.recordsFor record.resource).countP (·.occupiesAt instant) + 1 = count} account.peak
  /-- This is the peak that the occupancy over the interval shows afterwards. -/
  concurrent : record.occupies = true → ∀ units, 0 < units → ∃ u,
    after.utilization limits record.resource record.interval units = .ok u ∧
      u.concurrent = account.peak
  /-- A completed record finds no peak, and nothing is flagged. -/
  completed : record.status = .completed →
    account.peak = 0 ∧ account.conflicted = false ∧ account.newlyConflicted = []
  /-- The record is conflicted when it came in so or when the peak is over the limit. -/
  conflicted_iff : account.conflicted = true ↔
    record.status = .conflicted ∨ account.limit < account.peak
  /-- Over the limit, those are newly conflicted, in the order of their insertion, that occupied the
  resource without a flag and overlap the record; within the limit there are none. -/
  newlyConflicted : account.newlyConflicted =
    if account.limit < account.peak then
      arrived.dedup.filter fun id => (before.get? id).any fun r =>
        r.resource = record.resource && r.occupies && !r.isConflicted &&
          r.interval.overlaps record.interval
    else []
  /-- The record is stored as it came in, and flagged if it is conflicted. -/
  stored : after.get? record.id =
    some (if account.conflicted then record.withStatus .conflicted else record)
  /-- The newly conflicted records are flagged, and nothing else of any record is changed. -/
  others : ∀ id, id ≠ record.id → after.get? id = (before.get? id).map fun r =>
    if id ∈ account.newlyConflicted then r.withStatus .conflicted else r
  /-- Every query about another resource is answered as before. -/
  elsewhere : ∀ resource, resource ≠ record.resource → SameAt resource before after
  /-- The conflict count is the one shown afterwards. -/
  conflictCount : account.conflictCount = after.conflictCount record.resource
  /-- The revision is the one shown afterwards. -/
  revision : account.revision = after.revision record.resource

namespace Consistent

variable {ledger : Ledger} (h : ledger.Consistent)

include h

/-- The records that an insertion over the limit flags, in the order of the insertions. -/
theorem newlyFlagged_eq {arrived : List String} (horder : ledger.InOrder arrived)
    (record : Record) :
    (Book.newlyFlagged (ledger.book record.resource).records record).map (·.id) =
      arrived.dedup.filter fun id => (ledger.get? id).any fun r =>
        r.resource = record.resource && r.occupies && !r.isConflicted &&
          r.interval.overlaps record.interval := by
  have hids : (Book.newlyFlagged (ledger.book record.resource).records record).map (·.id) =
      ((ledger.book record.resource).records.map (·.id)).filter fun id =>
        (ledger.get? id).any fun r =>
          r.resource = record.resource && r.occupies && !r.isConflicted &&
            r.interval.overlaps record.interval := by
    rw [Book.newlyFlagged, List.filter_map]
    refine congrArg (List.map _) (List.filter_congr fun r hr => ?_)
    simp only [Function.comp, h.get?_of_mem hr, Option.any_some,
      h.resource_eq record.resource r hr, decide_true, Bool.true_and, Book.inTheWay]
    rw [Bool.and_right_comm]
  rw [hids, horder record.resource, List.filter_filter]
  refine List.filter_congr fun id _ => ?_
  cases hget : ledger.get? id with
  | none => rfl
  | some r =>
    rw [(h.index_of_get? hget).1, Option.any_some]
    by_cases howner : r.resource = record.resource <;> simp [howner]

/-- What is looked up under another id after an insertion. -/
theorem get?_storing_of_ne {limit : Nat} {record : Record}
    (hfresh : ledger.index.get? record.id = none) {id : String} (hne : id ≠ record.id) :
    (ledger.storing limit record).get? id = (ledger.get? id).map fun r =>
      if id ∈ ((ledger.book record.resource).insertion limit record).newlyConflicted then
        r.withStatus .conflicted
      else r := by
  rw [h.get?_storing_eq hfresh, if_neg hne]
  refine Option.map_congr fun r hget => ?_
  obtain ⟨hr, hid⟩ := h.get?_eq_some_iff.mp hget
  by_cases howner : r.resource = record.resource
  · rw [howner] at hr
    rw [if_pos howner, Book.kept_eq_of_newlyConflicted (h.nodup_ids _) hr, hid]
  · -- the account names records of the book only
    rw [if_neg howner, if_neg fun hnamed => ?_]
    rw [Book.newlyConflicted_insertion] at hnamed
    obtain ⟨other, hother, hoid⟩ := List.mem_map.mp hnamed
    have hmem := List.mem_of_mem_filter hother
    have hfound := h.get?_of_mem hmem
    rw [hoid, hget] at hfound
    cases hfound
    exact howner (h.resource_eq record.resource r hmem)

/-- The account of a record with a new id tells what its insertion does. -/
theorem accounts_storing {arrived : List String} (horder : ledger.InOrder arrived)
    {limits : Limits} {record : Record} (hpositive : 1 ≤ limits.capacity record.resource)
    (hfresh : ledger.index.get? record.id = none) :
    Accounts arrived ledger (ledger.storing (limits.capacity record.resource) record) limits record
      ((ledger.book record.resource).insertion (limits.capacity record.resource) record) := by
  have hbook := book_storing ledger (limits.capacity record.resource) record
  have hown := hbook record.resource
  rw [if_pos rfl] at hown
  refine
    { names := ⟨rfl, rfl, rfl⟩
      peak := fun hoccupies => ?_
      concurrent := fun hoccupies units hunits => ?_
      completed := Book.insertion_of_completed
      conflicted_iff := ?_
      newlyConflicted := ?_
      stored := ?_
      others := fun id hne => h.get?_storing_of_ne hfresh hne
      elsewhere := fun resource hne => sameAt_of_book (by rw [hbook, if_neg hne])
      conflictCount := ?_
      revision := ?_ }
  · simp only [countP_recordsFor, Book.openAt_eq_countP]
    exact Book.isGreatest_peakWith _ hoccupies
  · refine ⟨_, utilization_eq_ok record.interval hunits hpositive, ?_⟩
    show concurrent _ _ _ = _
    rw [concurrent, hown]
    exact Book.peak_occupied_add _ _ hoccupies
  · show (decide _ || decide _) = true ↔ _
    rw [Bool.or_eq_true, decide_eq_true_iff, decide_eq_true_iff, or_comm]
    rfl
  · show (if _ then _ else _) = _
    rw [h.newlyFlagged_eq horder record]
    rfl
  · rw [h.get?_storing_eq hfresh, if_pos rfl, Book.stored_eq_of_conflicted]
  · rw [Ledger.conflictCount, hown]
    rfl
  · rw [Ledger.revision, hown]
    rfl

/-- The account of an insertion that is answered, at an expected revision or without one. -/
theorem accounts_insert {arrived : List String} (horder : ledger.InOrder arrived)
    {limits : Limits} {record : Record} {expected : Option Nat} {account : Insertion}
    (hanswer : (ledger.insert limits record expected).2 = .ok account) :
    Accounts arrived ledger (ledger.insert limits record expected).1 limits record account := by
  obtain ⟨hpositive, hfresh, rfl, hafter⟩ := storing_of_answered hanswer
  rw [hafter]
  exact h.accounts_storing horder hpositive hfresh

end Consistent

/-- In every ledger that a run reaches, under whatever limits at each call. A record comes in
exactly when the limit of its resource is positive and no record has its id, and then the account
tells exactly what its insertion does. -/
theorem add_exact (calls : List Call) (limits : Limits) (record : Record) :
    let before := empty.run calls
    let after := (before.add limits record).1
    ((∃ account, (before.add limits record).2 = .ok account) ↔
      1 ≤ limits.capacity record.resource ∧ before.get? record.id = none) ∧
    ∀ account, (before.add limits record).2 = .ok account →
      Accounts (admitted (empty.log calls)) before after limits record account := by
  intro before after
  have hconsistent : before.Consistent := consistent_run calls
  refine ⟨?_, fun account hanswer => ?_⟩
  · rw [add, exists_insert_eq_ok_iff, hconsistent.get?_eq_none_iff]
    simp
  · exact hconsistent.accounts_insert (inOrder_run calls) hanswer

/-- An order that holds the press across its first two minutes, half of each. -/
def acrossMinutes : Record :=
  { pressOrder "d" with interval := ⟨30000, 90000, by decide, by decide, by decide⟩ }

/-- An order that holds the press in the second minute. -/
def secondMinute : Record :=
  { pressOrder "a" with interval := ⟨60000, 120000, by decide, by decide, by decide⟩ }

/-- Three orders for the press: two in its first minute, and the second to come in after them. -/
def shiftCalls : List Call :=
  [.add (pressOrder "c"), .add secondMinute, .add (pressOrder "b")].map (Call.mk doubleLimits)

/-- A press that takes two orders at once holds two in the first minute and one in the second. An
order across both minutes is the third one in the first; it flags also the order in the second
minute, where there are only two, and the account names the flagged orders as they came in. -/
theorem add_exact_press :
    let before := empty.run shiftCalls
    let after := (before.add doubleLimits acrossMinutes).1
    let account : Insertion := ⟨"d", "press", 2, 3, true, ["c", "a", "b"], 4, 4⟩
    (before.add doubleLimits acrossMinutes).2 = .ok account ∧
      Accounts (admitted (empty.log shiftCalls)) before after doubleLimits acrossMinutes account ∧
      before.get? "a" = some secondMinute ∧
      after.get? "a" = some (secondMinute.withStatus .conflicted) := by
  have hanswer : ((empty.run shiftCalls).add doubleLimits acrossMinutes).2 =
      .ok ⟨"d", "press", 2, 3, true, ["c", "a", "b"], 4, 4⟩ := by cbv
  have hbefore : (empty.run shiftCalls).get? "a" = some secondMinute := by cbv
  have haccount := (add_exact shiftCalls doubleLimits acrossMinutes).2 _ hanswer
  have hafter := haccount.others "a" (by decide)
  rw [hbefore] at hafter
  exact ⟨hanswer, haccount, hbefore, hafter⟩

end Ledger

end ShopFloor
