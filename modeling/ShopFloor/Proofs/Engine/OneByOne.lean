import Mathlib
import ShopFloor.Proofs.Engine.Loading
import ShopFloor.Proofs.Ledger.Refusal
import ShopFloor.Proofs.Ledger.Revision

/-!
# A bulk load inserts one by one

A client may insert the records of a text by a request for each, and stop at the first that is
refused. `Admits` is such a series of requests, none of them refused, and `Objection` says what a
record is refused for behind others: its resource carries nothing, or its id is stored or is that of
a record before it. Where all rows are read, a bulk load comes to the same: it answers what the
series was answered, or it fails like the first refused record and leaves what the series before it
left. The refused record may have opened the book of its resource, which no query and no later call
shows. Rows that are not read are left out. Main statements: `Admits.refused_iff`,
`admits_or_refused`, `load_refines_insertions`.
-/

namespace ShopFloor

/-- An insertion at any revision is refused for a resource that carries nothing, and otherwise for
an id that is stored. -/
theorem Ledger.add_eq_error_iff {ledger : Ledger} {limits : Limits} {record : Record}
    {fault : Fault} : (ledger.add limits record).2 = .error fault ↔
      (limits.capacity record.resource = 0 ∧ fault = .invalidCapacity record.resource 0) ∨
      (1 ≤ limits.capacity record.resource ∧ ledger.index.get? record.id ≠ none ∧
        fault = .duplicateRecord record.id) := by
  by_cases hzero : limits.capacity record.resource = 0
  · have hlimit := Limits.of_eq_error_iff.mpr ⟨hzero, rfl⟩
    rw [add, insert, hlimit]
    simp [hzero, eq_comm]
  · have hpositive : 1 ≤ limits.capacity record.resource := by omega
    have hlimit := Limits.of_eq_ok_iff.mpr ⟨rfl, hpositive⟩
    rw [add, insert, hlimit]
    cases hstored : ledger.index.get? record.id with
    | none =>
      have hadmitted : ledger.refusal? record none = none :=
        refusal?_eq_none_iff.mpr ⟨by simp, hstored⟩
      simp [hadmitted, hzero]
    | some resource =>
      have hrefused : ledger.refusal? record none = some (.duplicateRecord record.id) := by
        simp [refusal?, NameMap.contains, hstored]
      simp [hrefused, hzero, hpositive, eq_comm]

namespace Engine

/-- Records are inserted by one request after another, each made of the engine that the one before
left, and each is answered. -/
inductive Admits : Engine → List Record → List Insertion → Engine → Prop
  /-- Nothing is asked for. -/
  | nil {engine : Engine} : Admits engine [] [] engine
  /-- A record is inserted, and then the others. -/
  | cons {engine next last : Engine} {record : Record} {insertion : Insertion}
      {rest : List Record} {insertions : List Insertion}
      (hfirst : engine.add record = (next, .ok insertion))
      (hrest : Admits next rest insertions last) :
      Admits engine (record :: rest) (insertion :: insertions) last

/-- What a record is refused for behind others. -/
inductive Objection (engine : Engine) (before : List Record) (record : Record) : Fault → Prop
  /-- Its resource carries nothing. -/
  | nothing (hzero : engine.limits.capacity record.resource = 0) :
      Objection engine before record (.invalidCapacity record.resource 0)
  /-- Its id is stored, or is that of a record before it. -/
  | taken (hpositive : 1 ≤ engine.limits.capacity record.resource)
      (htaken : engine.ledger.get? record.id ≠ none ∨ record.id ∈ before.map (·.id)) :
      Objection engine before record (.duplicateRecord record.id)

variable {engine middle last : Engine} {record : Record} {records before after : List Record}
  {insertions : List Insertion} {fault : Fault}

/-- An insertion that is answered leaves the limits and takes the id of its record. -/
theorem add_of_answered {insertion : Insertion} {next : Engine}
    (h : engine.add record = (next, .ok insertion)) :
    next.limits = engine.limits ∧
      ∀ id, next.ledger.index.get? id = none ↔
        engine.ledger.index.get? id = none ∧ id ≠ record.id := by
  have hadd : engine.add record = _ :=
    reported_eq engine (engine.ledger.insert engine.limits record none)
  rw [hadd, Prod.mk.injEq] at h
  obtain ⟨hnext, hanswer⟩ := h
  obtain ⟨-, -, -, hafter⟩ := Ledger.storing_of_answered hanswer
  rw [hafter] at hnext
  subst hnext
  refine ⟨rfl, fun id => ?_⟩
  show (engine.ledger.index.insert record.id record.resource).get? id = none ↔ _
  rw [NameMap.get?_insert]
  by_cases hid : id = record.id <;> simp [hid]

namespace Admits

/-- Requests one after another that are all answered are a run in turn. -/
theorem inTurn_eq (h : engine.Admits records insertions last) :
    inTurn add engine records = (last, .ok insertions) := by
  induction h with
  | nil => rfl
  | cons hfirst hrest ih => simp only [inTurn, hfirst, ih]

/-- Insertions leave the limits as they are. -/
theorem limits_eq (h : engine.Admits records insertions last) : last.limits = engine.limits := by
  induction h with
  | nil => rfl
  | cons hfirst _ ih => rw [ih, (add_of_answered hfirst).1]

/-- After insertions the ids are free that were free before and are of no record inserted. -/
theorem index_eq_none_iff (h : engine.Admits records insertions last) (id : String) :
    last.ledger.index.get? id = none ↔
      engine.ledger.index.get? id = none ∧ id ∉ records.map (·.id) := by
  induction h with
  | nil => simp
  | cons hfirst _ ih =>
    rw [ih, (add_of_answered hfirst).2, List.map_cons, List.mem_cons, not_or, and_assoc]

/-- A record behind others that were admitted is refused for exactly what speaks against it. -/
theorem refused_iff (hsound : engine.Sound) (h : engine.Admits before insertions middle) :
    (middle.add record).2 = .error fault ↔ engine.Objection before record fault := by
  have hanswer : (middle.add record).2 = (middle.ledger.add engine.limits record).2 := by
    rw [← h.limits_eq]
    exact congrArg Prod.snd (reported_eq middle (middle.ledger.insert middle.limits record none))
  have htaken : middle.ledger.index.get? record.id ≠ none ↔
      engine.ledger.get? record.id ≠ none ∨ record.id ∈ before.map (·.id) := by
    rw [Ne, h.index_eq_none_iff, ← hsound.ledger.get?_eq_none_iff, not_and_or, not_not]
  rw [hanswer, Ledger.add_eq_error_iff, htaken]
  constructor
  · rintro (⟨hzero, rfl⟩ | ⟨hpositive, hid, rfl⟩)
    · exact .nothing hzero
    · exact .taken hpositive hid
  · intro hobjection
    cases hobjection with
    | nothing hzero => exact .inl ⟨hzero, rfl⟩
    | taken hpositive hid => exact .inr ⟨hpositive, hid, rfl⟩

end Admits

/-- Records one after another are all admitted, or there is a first one that is refused. -/
theorem admits_or_refused (engine : Engine) (records : List Record) :
    (∃ insertions last, engine.Admits records insertions last) ∨
      ∃ before record after insertions middle fault, records = before ++ record :: after ∧
        engine.Admits before insertions middle ∧ (middle.add record).2 = .error fault := by
  induction records generalizing engine with
  | nil => exact .inl ⟨[], engine, .nil⟩
  | cons record rest ih =>
    cases hadd : engine.add record with
    | mk next answer =>
      cases answer with
      | error fault => exact .inr ⟨[], record, rest, [], engine, fault, rfl, .nil, by rw [hadd]⟩
      | ok insertion =>
        rcases ih next with ⟨insertions, last, hrest⟩ |
          ⟨before, refused, after, insertions, middle, fault, hsplit, hbefore, hrefused⟩
        · exact .inl ⟨insertion :: insertions, last, .cons hadd hrest⟩
        · exact .inr ⟨record :: before, refused, after, insertion :: insertions, middle, fault,
            by rw [hsplit, List.cons_append], .cons hadd hbefore, hrefused⟩

/-- Where something speaks against a record behind those before it, this or an earlier record is the
first one that is refused. -/
theorem Sound.exists_refused (hsound : engine.Sound) (hsplit : records = before ++ record :: after)
    (hobjection : engine.Objection before record fault) :
    ∃ before record after insertions middle fault, records = before ++ record :: after ∧
      engine.Admits before insertions middle ∧ (middle.add record).2 = .error fault := by
  rcases admits_or_refused engine before with ⟨insertions, middle, hbefore⟩ |
    ⟨earlier, refused, between, insertions, middle, cause, hearlier, hadmits, hrefused⟩
  · exact ⟨before, record, after, insertions, middle, fault, hsplit, hbefore,
      (hbefore.refused_iff hsound).mpr hobjection⟩
  · refine ⟨earlier, refused, between ++ record :: after, insertions, middle, cause, ?_, hadmits,
      hrefused⟩
    rw [hsplit, hearlier, List.append_assoc, List.cons_append]

/-- A bulk load of rows that are all read answers, and leaves the ledger and the outlet, as a run of
insertions in turn does. -/
theorem Reachable.load_eq_inTurn (h : engine.Reachable) {text : String}
    {rows : List AllocationRow} (hrows : Intake.rowsOfText text = .ok rows)
    (hread : rows.mapM Intake.readAllocation = .ok records) :
    (engine.load text).2 = (inTurn add engine records).2 ∧
      (engine.load text).1.ledger = (inTurn add engine records).1.ledger ∧
      (engine.load text).1.outlet = (inTurn add engine records).1.outlet := by
  have hrecords : (engine.intake.allocationsOfText text).2 = .ok records := by
    rw [h.sound.intake.allocationsOfText, hrows]
    exact hread
  have hload := load_eq engine text
  dsimp only at hload
  rw [hload, hrecords]
  exact ⟨rfl, rfl, rfl⟩

/-- In every engine there can be, whatever it remembers, for a text whose rows are all read. If
inserting the records by one request after another is answered throughout, a bulk load gives the
same answers in order and leaves the same ledger and the same events. If a record is the first to be
refused, the load fails with the same fault, which says what speaks against the record; the events
are those of the records before it, and no query of the ledger and no later call tells it from the
ledger with the records before it. The load is answered exactly when nothing speaks against any
record behind those before it. -/
theorem load_refines_insertions (h : engine.Reachable) {text : String} {rows : List AllocationRow}
    (hrows : Intake.rowsOfText text = .ok rows)
    (hread : rows.mapM Intake.readAllocation = .ok records) :
    let next := (engine.load text).1
    let answer := (engine.load text).2
    (∀ insertions last, engine.Admits records insertions last →
      answer = .ok insertions ∧ next.ledger = last.ledger ∧ next.outlet = last.outlet) ∧
    (∀ before record after insertions middle fault, records = before ++ record :: after →
      engine.Admits before insertions middle → (middle.add record).2 = .error fault →
        answer = .error fault ∧ engine.Objection before record fault ∧
          next.outlet = middle.outlet ∧ middle.ledger.SameView next.ledger ∧
          ∀ calls, next.ledger.log calls = middle.ledger.log calls ∧
            (middle.ledger.run calls).SameView (next.ledger.run calls)) ∧
    ((∃ insertions, answer = .ok insertions) ↔
      ∀ before record after fault, records = before ++ record :: after →
        ¬ engine.Objection before record fault) := by
  obtain ⟨hanswer, hledger, houtlet⟩ := h.load_eq_inTurn hrows hread
  intro next answer
  have hall : ∀ insertions last, engine.Admits records insertions last →
      answer = .ok insertions ∧ next.ledger = last.ledger ∧ next.outlet = last.outlet := by
    intro insertions last hadmits
    rw [hadmits.inTurn_eq] at hanswer hledger houtlet
    exact ⟨hanswer, hledger, houtlet⟩
  have hfirst : ∀ before record after insertions middle fault,
      records = before ++ record :: after → engine.Admits before insertions middle →
      (middle.add record).2 = .error fault →
        answer = .error fault ∧ engine.Objection before record fault ∧
          next.outlet = middle.outlet ∧ middle.ledger.Alike next.ledger := by
    intro before record after insertions middle fault hsplit hbefore hrefused
    obtain ⟨halike, hevents⟩ := add_refused hrefused
    rw [hsplit, inTurn_of_refused hbefore.inTurn_eq hrefused after] at hanswer hledger houtlet
    refine ⟨hanswer, (hbefore.refused_iff h.sound).mp hrefused, houtlet.trans hevents, ?_⟩
    rw [hledger]
    exact halike
  refine ⟨hall, fun before record after insertions middle fault hsplit hbefore hrefused => ?_,
    fun ⟨insertions, hok⟩ before record after fault hsplit hobjection => ?_, fun hnone => ?_⟩
  · obtain ⟨hfault, hobjection, hevents, halike⟩ :=
      hfirst before record after insertions middle fault hsplit hbefore hrefused
    refine ⟨hfault, hobjection, hevents, halike.sameView, fun calls => ?_⟩
    obtain ⟨hlog, hrun⟩ := halike.run calls
    exact ⟨hlog, hrun.sameView⟩
  · obtain ⟨before', record', after', earlier, middle, cause, hsplit', hbefore, hrefused⟩ :=
      h.sound.exists_refused hsplit hobjection
    have hfails := (hfirst before' record' after' earlier middle cause hsplit' hbefore hrefused).1
    rw [hok] at hfails
    cases hfails
  · rcases admits_or_refused engine records with ⟨insertions, last, hadmits⟩ |
      ⟨before, record, after, insertions, middle, fault, hsplit, hbefore, hrefused⟩
    · exact ⟨insertions, (hall insertions last hadmits).1⟩
    · exact absurd ((hbefore.refused_iff h.sound).mp hrefused)
        (hnone before record after fault hsplit)

/-- A text with three rows for the press in its first minute, of which the last repeats the id of
the first, and a fourth row behind them. -/
def crowdedText : String :=
  "[[\"a\",\"press\",0,60000,\"\",\"planned\"],[\"b\",\"press\",0,60000,\"\",\"planned\"],"
    ++ "[\"a\",\"press\",0,60000,\"\",\"planned\"],[\"c\",\"lathe\",0,60000,\"\",\"planned\"]]"

/-- The rows of the text. -/
theorem rowsOfText_crowdedText : Intake.rowsOfText crowdedText =
    .ok [pressRow, { pressRow with id := "b" }, pressRow,
      { pressRow with id := "c", resource := "lathe" }] := by decide +kernel

/-- The record of a row for the press or the lathe in the first minute. -/
def rowRecord (id resource : String) : Record :=
  { Ledger.pressOrder id with resource := resource, payload := "" }

/-- The third row is refused for its id. The first two stay recorded and flagged, the event of the
second has gone out, and the fourth has not come in. -/
theorem load_refines_insertions_press :
    (pressEngine.load crowdedText).2 = .error (.duplicateRecord "a") ∧
      (pressEngine.load crowdedText).1.outlet =
        .journal [.conflictDetected "press" "b" ["b", "a"] 2 1] ∧
      (pressEngine.load crowdedText).1.ledger.conflictCount "press" = 2 ∧
      (pressEngine.load crowdedText).1.ledger.get? "c" = none := by
  have hread : [pressRow, { pressRow with id := "b" }, pressRow,
      { pressRow with id := "c", resource := "lathe" }].mapM Intake.readAllocation =
        .ok [rowRecord "a" "press", rowRecord "b" "press", rowRecord "a" "press",
          rowRecord "c" "lathe"] := by cbv
  have hbefore : pressEngine.Admits [rowRecord "a" "press", rowRecord "b" "press"]
      [⟨"a", "press", 1, 1, false, [], 0, 1⟩, ⟨"b", "press", 1, 2, true, ["a"], 2, 2⟩]
      (inTurn add pressEngine [rowRecord "a" "press", rowRecord "b" "press"]).1 :=
    .cons (by cbv) (.cons (by cbv) .nil)
  have hrefused : ((inTurn add pressEngine
      [rowRecord "a" "press", rowRecord "b" "press"]).1.add (rowRecord "a" "press")).2 =
        .error (.duplicateRecord "a") := by cbv
  obtain ⟨-, hfirst, -⟩ :=
    load_refines_insertions reachable_pressEngine rowsOfText_crowdedText hread
  obtain ⟨hfault, -, hevents, hview, -⟩ := hfirst _ _ _ _ _ _ rfl hbefore hrefused
  refine ⟨hfault, ?_, ?_, ?_⟩
  · rw [hevents]
    cbv
  · rw [(hview.at_resource "press").conflictCount]
    cbv
  · rw [hview.get?]
    cbv

end Engine

end ShopFloor
