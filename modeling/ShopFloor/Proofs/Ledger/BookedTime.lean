import Mathlib
import ShopFloor.Proofs.Ledger.Arrivals
import ShopFloor.Proofs.Ledger.Lifecycle
import ShopFloor.Proofs.Ledger.Rollup
import ShopFloor.Proofs.Window.Instants

/-!
# Booked time is conserved and bounded

The occupancy of a resource is taken from the time that its records book in a window, completed ones
included. Cutting the window into slots loses none of it and counts none twice. A record that comes
in adds its own time and a record that is taken out takes it away again; a change of stage does not
show, whether it was asked for or is a flag. As long as no record is completed, at most as much is
booked as the peak has room for. Main statements: `Book.timeIn_add`, `Book.timeIn_remove`,
`Book.timeIn_le`, `booked_conserved`.
-/

namespace ShopFloor

namespace Book

/-- The time that records book in a window. -/
def timeIn (records : List Record) (w : Window) : Int :=
  (records.map fun r => r.interval.overlap w).sum

/-- Booked time is that of the intervals. -/
theorem timeIn_eq (records : List Record) (w : Window) :
    timeIn records w = ((records.map (·.interval)).map (·.overlap w)).sum := by
  rw [List.map_map]
  rfl

/-- Booked time does not depend on the order of the records. -/
theorem timeIn_perm {records others : List Record} (h : records.Perm others) (w : Window) :
    timeIn records w = timeIn others w :=
  (h.map _).sum_eq

/-- Booked time is unchanged where every record keeps its interval. -/
theorem timeIn_map {change : Record → Record} (h : ∀ r, (change r).interval = r.interval)
    (records : List Record) (w : Window) : timeIn (records.map change) w = timeIn records w := by
  rw [timeIn, timeIn, List.map_map]
  exact congrArg List.sum (List.map_congr_left fun r _ => congrArg (Window.overlap · w) (h r))

/-- A record that comes in adds its own time, whether or not flags are raised. -/
theorem timeIn_add (book : Book) (limit : Nat) (record : Record) (w : Window) :
    timeIn (book.add limit record).records w =
      timeIn book.records w + record.interval.overlap w := by
  have hkept : ∀ r, (book.kept limit record r).interval = r.interval := fun r =>
    (Record.outline_eq (outline_kept r)).2.1
  have hstored : (book.stored limit record).interval = record.interval :=
    (Record.outline_eq outline_stored).2.1
  have hrest := timeIn_map hkept book.records w
  rw [timeIn] at hrest ⊢
  rw [records_add, List.map_append, List.sum_append, hrest, List.map_singleton, List.sum_singleton,
    hstored]

/-- A move along the lifecycle leaves the booked time as it is. -/
theorem timeIn_setStatus (book : Book) (id : String) (next : Status) (w : Window) :
    timeIn (book.setStatus id next).records w = timeIn book.records w := by
  rw [records_setStatus]
  refine timeIn_map (fun r => ?_) book.records w
  unfold Record.moved
  split <;> rfl

/-- A record that is taken out takes its time away. -/
theorem timeIn_remove {book : Book} (hnodup : (book.records.map (·.id)).Nodup) {record : Record}
    (hmem : record ∈ book.records) (w : Window) :
    timeIn (book.remove record.id).records w + record.interval.overlap w =
      timeIn book.records w := by
  rw [timeIn_perm (perm_cons_others hnodup hmem) w, add_comm]
  rfl

/-- Records that all occupy book at most as much time as the peak has room for. -/
theorem timeIn_le {records : List Record} (h : ∀ r ∈ records, r.occupies = true) (w : Window) :
    timeIn records w ≤ w.duration * w.peak (occupied records) := by
  have hoccupied : occupied records = records.map (·.interval) := by
    rw [occupied, List.filter_eq_self.mpr h]
  rw [timeIn_eq, hoccupied]
  exact Window.sum_overlap_le w _

end Book

namespace Ledger

/-- The booked time of a resource is that of its book. -/
theorem booked_eq (ledger : Ledger) (resource : String) (w : Window) :
    ledger.booked resource w = Book.timeIn (ledger.book resource).records w := by
  rw [booked, Book.timeIn, List.sum_eq_foldr, List.foldr_map]

/-- The booked time of a resource is that of the records that it lists. -/
theorem booked_eq_recordsFor (ledger : Ledger) (resource : String) (w : Window) :
    ledger.booked resource w =
      ((ledger.recordsFor resource).map fun r => r.interval.overlap w).sum := by
  rw [booked_eq]
  exact Book.timeIn_perm (listed_perm _).symm w

/-- The booked time of a resource in a window is the sum of those in its slots. -/
theorem booked_split (ledger : Ledger) (resource : String) (w : Window) (minutes : Nat) :
    ledger.booked resource w = ((w.split minutes).map (ledger.booked resource)).sum := by
  rw [booked_eq, Book.timeIn_eq, Window.sum_overlap_split w minutes]
  refine congrArg List.sum (List.map_congr_left fun slot _ => ?_)
  rw [booked_eq, Book.timeIn_eq]

/-- An insertion that is answered adds the time of its record to the resource. -/
theorem booked_insert {ledger : Ledger} {limits : Limits} {record : Record}
    {expected : Option Nat} {account : Insertion}
    (hanswer : (ledger.insert limits record expected).2 = .ok account) (resource : String)
    (w : Window) : (ledger.insert limits record expected).1.booked resource w =
      ledger.booked resource w +
        if resource = record.resource then record.interval.overlap w else 0 := by
  obtain ⟨-, -, -, hafter⟩ := storing_of_answered hanswer
  rw [hafter, booked_eq, booked_eq, book_storing]
  split
  next howner => rw [Book.timeIn_add, howner]
  next => rw [add_zero]

namespace Consistent

variable {ledger : Ledger} (h : ledger.Consistent)

include h

/-- A removal that is answered takes the time of its record away from the resource. -/
theorem booked_remove {id : String} {r : Record} (hanswer : (ledger.remove id).2 = .ok r)
    (resource : String) (w : Window) :
    (ledger.remove id).1.booked resource w +
        (if resource = r.resource then r.interval.overlap w else 0) =
      ledger.booked resource w := by
  obtain ⟨hget, -, hafter⟩ := h.dropping_of_answered hanswer
  obtain ⟨hr, rfl⟩ := h.get?_eq_some_iff.mp hget
  rw [hafter, booked_eq, booked_eq, book_dropping]
  split
  next howner => rw [howner, Book.timeIn_remove (h.nodup_ids _) hr]
  next => rw [add_zero]

/-- A move that is answered leaves the booked times as they are. -/
theorem booked_transition {limits : Limits} {id : String} {next : Status} {moved : Record}
    (hanswer : (ledger.transition limits id next).2 = .ok moved) (resource : String) (w : Window) :
    (ledger.transition limits id next).1.booked resource w = ledger.booked resource w := by
  obtain ⟨r, -, -, -, hafter⟩ := h.moving_of_answered hanswer
  rw [hafter, booked_eq, booked_eq, book_moving]
  split
  next howner => rw [Book.timeIn_setStatus, howner]
  next => rfl

end Consistent

/-- Where no record of a resource is completed, at most as much is booked as the records that occupy
it at once have room for. -/
theorem booked_le {ledger : Ledger} {resource : String}
    (h : ∀ r ∈ ledger.recordsFor resource, r.status ≠ .completed) (w : Window) :
    ledger.booked resource w ≤ w.duration * ledger.concurrent resource w := by
  rw [booked_eq, concurrent]
  refine Book.timeIn_le (fun r hr => ?_) w
  exact decide_eq_true (h r (mem_recordsFor.mpr hr))

/-- In every ledger that a run reaches, under whatever limits at each call, for every resource and
window. The booked time is that of all records of the resource. It is the sum of those in the slots
of the window, whatever their width. An insertion adds to its resource the time of its record and
nothing else, a removal takes the time of its record away, and a move leaves all booked times as
they are. If no record of the resource is completed, the booked time is at most the length of the
window for each record of the peak. The occupancy is reported from the booked time and the peak;
unless the resource is reported over capacity, the booked time is then also at most the length of
the window for each record that the limit allows. -/
theorem booked_conserved (calls : List Call) (limits : Limits) (resource : String) (w : Window) :
    let before := empty.run calls
    before.booked resource w =
      ((before.recordsFor resource).map fun r => r.interval.overlap w).sum ∧
    (∀ minutes, before.booked resource w =
      ((w.split minutes).map (before.booked resource)).sum) ∧
    (∀ record expected account, (before.insert limits record expected).2 = .ok account →
      (before.insert limits record expected).1.booked resource w = before.booked resource w +
        if resource = record.resource then record.interval.overlap w else 0) ∧
    (∀ id r, (before.remove id).2 = .ok r →
      (before.remove id).1.booked resource w +
          (if resource = r.resource then r.interval.overlap w else 0) =
        before.booked resource w) ∧
    (∀ id next moved, (before.transition limits id next).2 = .ok moved →
      (before.transition limits id next).1.booked resource w = before.booked resource w) ∧
    ((∀ r ∈ before.recordsFor resource, r.status ≠ .completed) →
      before.booked resource w ≤ w.duration * before.concurrent resource w) ∧
    ∀ units, 0 < units → 1 ≤ limits.capacity resource →
      ∃ u, before.utilization limits resource w units = .ok u ∧
        u.raw = fraction (before.booked resource w) w units ∧
        u.concurrent = before.concurrent resource w ∧
        ((∀ r ∈ before.recordsFor resource, r.status ≠ .completed) → u.overCapacity = false →
          before.booked resource w ≤ w.duration * limits.capacity resource) := by
  intro before
  have hconsistent : before.Consistent := consistent_run calls
  refine ⟨before.booked_eq_recordsFor resource w, before.booked_split resource w,
    fun record expected account hanswer => booked_insert hanswer resource w,
    fun id r hanswer => hconsistent.booked_remove hanswer resource w,
    fun id next moved hanswer => hconsistent.booked_transition hanswer resource w,
    fun hopen => booked_le hopen w, fun units hunits hpositive => ?_⟩
  refine ⟨_, utilization_eq_ok w hunits hpositive, rfl, rfl, fun hopen hover => ?_⟩
  have hwithin : before.concurrent resource w ≤ limits.capacity resource :=
    Nat.le_of_not_lt (of_decide_eq_false hover)
  exact (booked_le hopen w).trans
    (Int.mul_le_mul_of_nonneg_left (Int.ofNat_le.mpr hwithin) w.duration_pos.le)

/-- An order of the press in the first minute, taken up to the stage before its completion. -/
def underWayCalls : List Call :=
  [.add (pressOrder "a"), .transition "a" .confirmed, .transition "a" .active].map
    (Call.mk pressLimits)

/-- Two and a half minutes around the first one. -/
def aroundFirst : Window := ⟨-15000, 135000, by decide, by decide, by decide⟩

/-- Of two orders for the first minute, both flagged, each books a minute of the two and a half
around it, also when these are cut into slots of a minute across the borders of the orders; one is
taken out with its minute. An order that is completed keeps its minute. -/
theorem booked_conserved_press :
    let two := empty.run pressCalls
    let one := empty.run underWayCalls
    ((aroundFirst.split 1).map (two.booked "press")).sum = 120000 ∧
      (two.remove "b").1.booked "press" aroundFirst + 60000 = 120000 ∧
      (one.transition pressLimits "a" .completed).1.booked "press" aroundFirst = 60000 ∧
      ∃ u, two.utilization pressLimits "press" aroundFirst 1 = .ok u ∧
        u.raw = fraction 120000 aroundFirst 1 ∧ 120000 ≤ aroundFirst.duration * u.concurrent := by
  have htwo : (empty.run pressCalls).booked "press" aroundFirst = 120000 := by cbv
  have hone : (empty.run underWayCalls).booked "press" aroundFirst = 60000 := by cbv
  have hremove : ((empty.run pressCalls).remove "b").2 =
      .ok ((pressOrder "b").withStatus .conflicted) := by cbv
  have hcomplete : ((empty.run underWayCalls).transition pressLimits "a" .completed).2 =
      .ok ((pressOrder "a").withStatus .completed) := by cbv
  have hlisted : (empty.run pressCalls).recordsFor "press" =
      [(pressOrder "a").withStatus .conflicted, (pressOrder "b").withStatus .conflicted] := by cbv
  have hopen : ∀ r ∈ (empty.run pressCalls).recordsFor "press", r.status ≠ .completed := by
    rw [hlisted]
    decide
  intro two one
  obtain ⟨-, hslots, -, hremoved, -, hbound, hreported⟩ :=
    booked_conserved pressCalls pressLimits "press" aroundFirst
  obtain ⟨-, -, -, -, hmoved, -, -⟩ :=
    booked_conserved underWayCalls pressLimits "press" aroundFirst
  obtain ⟨u, hu, hraw, hpeak, -⟩ := hreported 1 (by decide) (by decide)
  have hpressed := hbound hopen
  rw [← hpeak, htwo] at hpressed
  rw [htwo] at hslots hraw
  exact ⟨(hslots 1).symm, (hremoved _ _ hremove).trans htwo, (hmoved _ _ _ hcomplete).trans hone,
    u, hu, hraw, hpressed⟩

end Ledger

end ShopFloor
