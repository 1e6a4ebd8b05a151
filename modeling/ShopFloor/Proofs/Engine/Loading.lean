import Mathlib
import ShopFloor.Proofs.Engine.Run

/-!
# What a bulk load records

The rows of a text can be recorded one by one, each read and inserted before the next one is looked
at; the first row that fails then leaves the rows before it recorded. A bulk load reads all rows
first. Where every row is read it does what recording one by one does. Where some row is not, it
fails with the fault of the first such row and records none, neither the rows before it nor those
that would have been refused. Main statements: `addRow_refused`, `load_of_rows`,
`load_drops_rows`.
-/

namespace ShopFloor

/-- Texts are read into records as if nothing were remembered. -/
theorem Intake.Faithful.allocationsOfText {intake : Intake} (h : intake.Faithful) (text : String) :
    (intake.allocationsOfText text).2 =
      rowsOfText text >>= fun rows => rows.mapM readAllocation :=
  Answer.allocations.inj (h.step (.allocations text)).1

namespace Engine

/-- The engine after a row was read and its record inserted. -/
def addRow (engine : Engine) (row : AllocationRow) : Engine × Except Fault Insertion :=
  match Intake.readAllocation row with
  | .error fault => (engine, .error fault)
  | .ok record => engine.add record

/-- Whether recording rows one by one fails, with a fault, in an engine that has recorded all rows
before the one that fails. -/
def StopsAt (engine : Engine) (rows : List AllocationRow) (middle : Engine) (fault : Fault) :
    Prop :=
  ∃ before row after insertions, rows = before ++ row :: after ∧
    inTurn addRow engine before = (middle, .ok insertions) ∧
    (middle.addRow row).2 = .error fault

variable {engine : Engine}

/-- A record that is refused leaves a ledger like the one it found, and no event. -/
theorem add_refused {record : Record} {fault : Fault}
    (hrefused : (engine.add record).2 = .error fault) :
    engine.ledger.Alike (engine.add record).1.ledger ∧
      (engine.add record).1.outlet = engine.outlet := by
  have heffect := Ledger.insert_effect engine.ledger engine.limits record none
  have hadd : engine.add record = _ :=
    reported_eq engine (engine.ledger.insert engine.limits record none)
  rw [hadd] at hrefused ⊢
  dsimp only at hrefused ⊢
  rw [hrefused] at heffect ⊢
  exact ⟨heffect.alike, rfl⟩

/-- A row that fails leaves a ledger like the one it found, and no event. -/
theorem addRow_refused {row : AllocationRow} {fault : Fault}
    (hrefused : (engine.addRow row).2 = .error fault) :
    engine.ledger.Alike (engine.addRow row).1.ledger ∧
      (engine.addRow row).1.outlet = engine.outlet := by
  cases hread : Intake.readAllocation row with
  | error other =>
    rw [addRow, hread]
    exact ⟨.refl engine.ledger, rfl⟩
  | ok record =>
    rw [addRow, hread] at hrefused ⊢
    exact add_refused hrefused

/-- Rows that are all read are recorded one by one as their records are inserted in turn. -/
theorem inTurn_addRow_eq {rows : List AllocationRow} {records : List Record}
    (hread : rows.mapM Intake.readAllocation = .ok records) :
    inTurn addRow engine rows = inTurn add engine records := by
  refine inTurn_congr ((mapM_eq_ok_iff.mp hread).imp fun row record hrow state => ?_) engine
  rw [addRow, hrow]

/-- Recording one by one ends where it stops, in an engine like the one that had recorded the rows
before. -/
theorem StopsAt.inTurn_addRow {rows : List AllocationRow} {middle : Engine} {fault : Fault}
    (h : engine.StopsAt rows middle fault) :
    (inTurn addRow engine rows).2 = .error fault ∧
      middle.ledger.Alike (inTurn addRow engine rows).1.ledger ∧
      (inTurn addRow engine rows).1.outlet = middle.outlet := by
  obtain ⟨before, row, after, insertions, hrows, hbefore, hrefused⟩ := h
  have hrun := inTurn_of_refused hbefore hrefused after
  have hnext := addRow_refused hrefused
  rw [hrows, hrun]
  exact ⟨rfl, hnext⟩

/-- What a bulk load does to every engine there can be, given the rows of its text. If all of them
are read, it answers and leaves the ledger and the outlet as recording the rows one by one does: so
it stops at the first record that is refused, and what was recorded before stays. If a row is not
read, and those before it are, it fails with the fault of this row and records nothing at all, be
there a row before it that would have been stored or one that would have been refused. -/
theorem load_of_rows (h : engine.Reachable) {text : String} {rows : List AllocationRow}
    (hrows : Intake.rowsOfText text = .ok rows) :
    let next := (engine.load text).1
    let answer := (engine.load text).2
    (∀ records, rows.mapM Intake.readAllocation = .ok records →
      (answer = (inTurn addRow engine rows).2 ∧
        next.ledger = (inTurn addRow engine rows).1.ledger ∧
        next.outlet = (inTurn addRow engine rows).1.outlet) ∧
      ∀ middle fault, engine.StopsAt rows middle fault →
        answer = .error fault ∧ middle.ledger.Alike next.ledger ∧ next.outlet = middle.outlet) ∧
    ∀ before row after earlier fault, rows = before ++ row :: after →
      before.mapM Intake.readAllocation = .ok earlier →
      Intake.readAllocation row = .error fault →
        answer = .error fault ∧ next.ledger = engine.ledger ∧ next.outlet = engine.outlet := by
  have hrecords : (engine.intake.allocationsOfText text).2 =
      rows.mapM Intake.readAllocation := by
    rw [h.sound.intake.allocationsOfText, hrows]
    rfl
  have hload := load_eq engine text
  dsimp only at hload
  rw [hrecords] at hload
  intro next answer
  refine ⟨fun records hread => ?_, fun before row after earlier fault hsplit hbefore hrow => ?_⟩
  · have hsame : answer = (inTurn addRow engine rows).2 ∧
        next.ledger = (inTurn addRow engine rows).1.ledger ∧
        next.outlet = (inTurn addRow engine rows).1.outlet := by
      simp only [next, answer]
      rw [hload, hread, inTurn_addRow_eq hread]
      exact ⟨rfl, rfl, rfl⟩
    refine ⟨hsame, fun middle fault hstops => ?_⟩
    obtain ⟨hanswer, hledger, houtlet⟩ := hsame
    rw [hanswer, hledger, houtlet]
    exact hstops.inTurn_addRow
  · have hfault := mapM_eq_error hbefore hrow after
    rw [← hsplit] at hfault
    simp only [next, answer]
    rw [hload, hfault]
    exact ⟨rfl, rfl, rfl⟩

/-- A row for the press in its first minute. -/
def pressRow : AllocationRow := ⟨"a", "press", 0, 60000, "", "planned"⟩

/-- A row whose interval is empty. -/
def emptyRow : AllocationRow := ⟨"b", "press", 5, 5, "", "planned"⟩

/-- A text with the row for the press twice. -/
def repeatedText : String :=
  "[[\"a\",\"press\",0,60000,\"\",\"planned\"],[\"a\",\"press\",0,60000,\"\",\"planned\"]]"

/-- A text with the row for the press and the one whose interval is empty. -/
def brokenText : String :=
  "[[\"a\",\"press\",0,60000,\"\",\"planned\"],[\"b\",\"press\",5,5,\"\",\"planned\"]]"

/-- The rows of the first text are those it shows. -/
theorem rowsOfText_repeatedText :
    Intake.rowsOfText repeatedText = .ok [pressRow, pressRow] := by decide +kernel

/-- The rows of the second text are those it shows. -/
theorem rowsOfText_brokenText :
    Intake.rowsOfText brokenText = .ok [pressRow, emptyRow] := by decide +kernel

/-- One by one, the row for the press is recorded and the row behind it may fail. -/
theorem stopsAt_press {row : AllocationRow} {fault : Fault}
    (hrefused : ((pressEngine.addRow pressRow).1.addRow row).2 = .error fault) :
    pressEngine.StopsAt [pressRow, row] (pressEngine.addRow pressRow).1 fault := by
  have hbefore : inTurn addRow pressEngine [pressRow] =
      ((pressEngine.addRow pressRow).1, .ok [⟨"a", "press", 1, 1, false, [], 0, 1⟩]) := by cbv
  exact ⟨[pressRow], row, [], _, rfl, hbefore, hrefused⟩

/-- A row that is read and refused leaves the one before it recorded, and a row that is not read
leaves nothing recorded. -/
theorem load_of_rows_press :
    ((pressEngine.load repeatedText).2 = .error (.duplicateRecord "a") ∧
      (pressEngine.load repeatedText).1.ledger.index.get? "a" = some "press") ∧
    (pressEngine.load brokenText).2 = .error (.invalidInterval 5 5) ∧
      (pressEngine.load brokenText).1.ledger = .empty := by
  have hrepeated := load_of_rows reachable_pressEngine rowsOfText_repeatedText
  have hbroken := load_of_rows reachable_pressEngine rowsOfText_brokenText
  have hread : [pressRow].mapM Intake.readAllocation =
      .ok [⟨"a", "press", ⟨0, 60000, by decide, by decide, by decide⟩, "", .planned⟩] := by cbv
  have htwice : [pressRow, pressRow].mapM Intake.readAllocation =
      .ok [⟨"a", "press", ⟨0, 60000, by decide, by decide, by decide⟩, "", .planned⟩,
        ⟨"a", "press", ⟨0, 60000, by decide, by decide, by decide⟩, "", .planned⟩] := by cbv
  have hfault : Intake.readAllocation emptyRow = .error (.invalidInterval 5 5) := by cbv
  have hstops : pressEngine.StopsAt [pressRow, pressRow] (pressEngine.addRow pressRow).1
      (.duplicateRecord "a") := stopsAt_press (by cbv)
  have hkept : (pressEngine.addRow pressRow).1.ledger.index.get? "a" = some "press" := by cbv
  obtain ⟨hrefused, halike, _⟩ := (hrepeated.1 _ htwice).2 _ _ hstops
  obtain ⟨hunread, hledger, _⟩ := hbroken.2 [pressRow] emptyRow [] _ _ rfl hread hfault
  refine ⟨⟨hrefused, ?_⟩, hunread, hledger⟩
  rw [halike.index, hkept]

/-- Recording one by one and a bulk load part where a row is not read behind one that is: the first
keeps the row before, the second drops it. -/
theorem load_drops_rows :
    ¬ ∀ engine : Engine, engine.Reachable → ∀ text rows, Intake.rowsOfText text = .ok rows →
      ∀ middle fault, engine.StopsAt rows middle fault →
        (engine.load text).2 = .error fault ∧
          middle.ledger.Alike (engine.load text).1.ledger ∧
          (engine.load text).1.outlet = middle.outlet := by
  intro hall
  have hstops : pressEngine.StopsAt [pressRow, emptyRow] (pressEngine.addRow pressRow).1
      (.invalidInterval 5 5) := stopsAt_press (by cbv)
  have hsame := hall pressEngine reachable_pressEngine brokenText _ rowsOfText_brokenText _ _ hstops
  have hkept : (pressEngine.addRow pressRow).1.ledger.index.get? "a" = some "press" := by cbv
  have hdropped : (pressEngine.load brokenText).1.ledger.index.get? "a" = none := by decide +kernel
  rw [← hsame.2.1.index, hdropped] at hkept
  cases hkept

end Engine

end ShopFloor
