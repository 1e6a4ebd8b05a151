import Mathlib
import ShopFloor.Proofs.Engine.Run
import ShopFloor.Proofs.Ledger.Flags

/-!
# The events tell what happened

What an engine did over a run is the list of the choices it made, the records it stored, each
between two states of its ledger, and the records that it moved and took out. A bulk load did what
its insertions did, up to the first that was refused. The events handed to the outlet are those of
these deeds in order: each choice has one, a stored record has one if its insertion flagged records,
and nothing else has any. Who hears the events and learns which records moved or went knows which
records are flagged. Main statements: `Tells.step`, `Tells.run`, `events_tell`.
-/

namespace ShopFloor.Engine

open Ledger (pressOrder)

/-- Something that an engine did. -/
inductive Deed where
  /-- A choice was made for a task in a window. -/
  | chose (task : String) (w : Window) (choice : Choice)
  /-- A record was stored, which led from one state of the ledger to another. -/
  | stored (record : Record) (insertion : Insertion) (before after : Ledger)
  /-- A record moved and is now as given. -/
  | moved (record : Record)
  /-- A record was taken out. -/
  | removed (record : Record)

/-- The deed of an answer, if the request was not refused. -/
def done {α : Type} (answer : Except Fault α) (deed : α → Deed) : List Deed :=
  match answer with
  | .error _ => []
  | .ok value => [deed value]

/-- The deed of an insertion that was not refused. -/
def doneAdding (engine : Engine) (record : Record) (outcome : Engine × Except Fault Insertion) :
    List Deed :=
  done outcome.2 fun insertion => .stored record insertion engine.ledger outcome.1.ledger

/-- The deeds of insertions in turn, up to the first that is refused. -/
def insertions (engine : Engine) : List Record → List Deed
  | [] => []
  | record :: rest =>
    match (engine.add record).2 with
    | .error _ => []
    | .ok insertion =>
      .stored record insertion engine.ledger (engine.add record).1.ledger ::
        (engine.add record).1.insertions rest

/-- What an engine does at a request. -/
def deeds (engine : Engine) : Request → List Deed
  | .select task w pool options => done (engine.select task w pool options).2 (.chose task w)
  | .selectRegistered task w => done (engine.selectRegistered task w).2 (.chose task w)
  | .add record => engine.doneAdding record (engine.add record)
  | .addExpecting record revision =>
    engine.doneAdding record (engine.addExpecting record revision)
  | .transition id next => done (engine.transition id next).2 .moved
  | .remove id => done (engine.remove id).2 .removed
  | .decode _ => []
  | .load text =>
    match (engine.intake.allocationsOfText text).2 with
    | .error _ => []
    | .ok records => engine.insertions records

/-- What an engine does over requests one after another. -/
def history (engine : Engine) : List Request → List Deed
  | [] => []
  | request :: rest => engine.deeds request ++ (engine.step request).1.history rest

/-- The event that tells of a deed. A stored record is told of if records were flagged, with their
ids, the new record first. -/
def Deed.event? : Deed → Option Event
  | .chose task w (.selected variant feasible _) =>
    some (.variantSelected task variant.id feasible w.start w.stop)
  | .chose task w (.infeasible rejections) =>
    some (.variantInfeasible task rejections.length w.start w.stop)
  | .stored record insertion before after =>
    match Ledger.raised before after record.resource record.id with
    | [] => none
    | flagged =>
      some (.conflictDetected record.resource record.id flagged insertion.peak insertion.limit)
  | .moved _ => none
  | .removed _ => none

/-- Whether an event names everything that a deed flagged: the ids of the resource whose flags an
insertion raised are, each once, all that are flagged in the ledger after it and were not before. -/
def Deed.NamesAll : Deed → Prop
  | .stored record _ before after =>
    (Ledger.raised before after record.resource record.id).Nodup ∧
      (Ledger.raised before after record.resource record.id).toFinset =
        after.flagged \ before.flagged
  | .chose .. => True
  | .moved _ => True
  | .removed _ => True

/-- What is known outside an engine about a deed. -/
inductive Notice where
  /-- The outlet was handed an event. -/
  | event (event : Event)
  /-- A move was answered with a record. -/
  | moved (record : Record)
  /-- A removal was answered with a record. -/
  | removed (record : Record)

/-- What is known outside of a deed, if anything. -/
def Deed.notice? : Deed → Option Notice
  | .moved record => some (.moved record)
  | .removed record => some (.removed record)
  | .chose task w choice => (Deed.chose task w choice).event?.map .event
  | .stored record insertion before after =>
    (Deed.stored record insertion before after).event?.map .event

/-- The flagged ids after a notice, given those before it. -/
def Notice.applied (flagged : Finset String) : Notice → Finset String
  | .event (.conflictDetected _ _ affected _ _) => flagged ∪ affected.toFinset
  | .event _ => flagged
  | .moved record =>
    if record.isConflicted then flagged ∪ {record.id} else flagged.erase record.id
  | .removed record => flagged.erase record.id

/-- Whether deeds between two states of an engine explain the events and the flags: the events
handed to the outlet are those of the deeds, the flags are those that the notices make, and the
events name everything that was flagged. -/
structure Tells (engine : Engine) (deeds : List Deed) (next : Engine) : Prop where
  /-- The outlet was handed the events of the deeds. -/
  outlet : next.outlet = (deeds.filterMap Deed.event?).foldl Outlet.emit engine.outlet
  /-- The flags are known from the notices. -/
  flagged : next.ledger.flagged =
    (deeds.filterMap Deed.notice?).foldl Notice.applied engine.ledger.flagged
  /-- The events name everything that was flagged. -/
  namesAll : ∀ deed ∈ deeds, deed.NamesAll

namespace Tells

variable {a b c : Engine} {first second : List Deed}

/-- Where nothing was done and neither events nor flags changed, no deed explains it. -/
theorem nil (houtlet : b.outlet = a.outlet) (hflagged : b.ledger.flagged = a.ledger.flagged) :
    Tells a [] b :=
  ⟨houtlet, hflagged, List.forall_mem_nil _⟩

/-- Deeds that explain one part of a run, and then the other, explain the whole. -/
theorem append (hfirst : Tells a first b) (hsecond : Tells b second c) :
    Tells a (first ++ second) c := by
  refine ⟨?_, ?_, List.forall_mem_append.mpr ⟨hfirst.namesAll, hsecond.namesAll⟩⟩
  · rw [List.filterMap_append, List.foldl_append, ← hfirst.outlet]
    exact hsecond.outlet
  · rw [List.filterMap_append, List.foldl_append, ← hfirst.flagged]
    exact hsecond.flagged

/-- A deed is explained by its own event and notice. -/
theorem single {deed : Deed}
    (houtlet : b.outlet = deed.event?.toList.foldl Outlet.emit a.outlet)
    (hflagged : b.ledger.flagged = deed.notice?.toList.foldl Notice.applied a.ledger.flagged)
    (hnames : deed.NamesAll) : Tells a [deed] b := by
  have hevents : [deed].filterMap Deed.event? = deed.event?.toList := by
    cases hevent : deed.event? <;> simp [hevent]
  have hnotices : [deed].filterMap Deed.notice? = deed.notice?.toList := by
    cases hnotice : deed.notice? <;> simp [hnotice]
  refine ⟨?_, ?_, List.forall_mem_singleton.mpr hnames⟩
  · rw [hevents, houtlet]
  · rw [hnotices, hflagged]

end Tells

/-- A choice is told by the event that reports it. -/
theorem event?_chose (task : String) (w : Window) (choice : Choice) :
    (Deed.chose task w choice).event? = some (choiceEvent task w choice) := by
  cases choice <;> rfl

/-- A choice is explained by its answer. -/
theorem tells_select (engine : Engine) (task : String) (w : Window) (pool : List Profile)
    (options : ChoiceOptions) :
    Tells engine (done (engine.select task w pool options).2 (.chose task w))
      (engine.select task w pool options).1 := by
  unfold select
  cases engine.choose task w pool options with
  | error fault => exact .nil rfl rfl
  | ok choice =>
    refine .single ?_ ?_ trivial
    · rw [event?_chose]
      rfl
    · cases choice <;> rfl

/-- The event of a stored record is the one that reports its insertion. -/
theorem event?_stored {ledger : Ledger} (h : ledger.Consistent) {limits : Limits}
    {record : Record} {expected : Option Nat} {insertion : Insertion}
    (hanswer : (ledger.insert limits record expected).2 = .ok insertion) :
    (Deed.stored record insertion ledger (ledger.insert limits record expected).1).event? =
      conflictEvent? insertion := by
  obtain ⟨hid, hresource, hraised, -, -⟩ := h.flagged_insert hanswer
  rw [Deed.event?, hraised, conflictEvent?, hid, hresource]
  cases insertion.affected <;> rfl

/-- The events of an insertion flag what it flagged. -/
theorem foldl_applied_conflictEvent? (flagged : Finset String) (insertion : Insertion) :
    ((conflictEvent? insertion).map Notice.event).toList.foldl Notice.applied flagged =
      flagged ∪ insertion.affected.toFinset := by
  unfold conflictEvent?
  cases haffected : insertion.affected with
  | nil => simp
  | cons id rest => simp [Notice.applied]

namespace Sound

variable {engine : Engine} (h : engine.Sound)

include h

/-- An insertion is explained by its answer. -/
theorem tells_insert (limits : Limits) (record : Record) (expected : Option Nat) :
    let outcome := engine.reported (engine.ledger.insert limits record expected)
    Tells engine (engine.doneAdding record outcome) outcome.1 := by
  intro outcome
  have houtcome : outcome = _ := reported_eq engine (engine.ledger.insert limits record expected)
  rw [houtcome, doneAdding]
  dsimp only
  have heffect := Ledger.insert_effect engine.ledger limits record expected
  have hnext : (engine.ledger.insert limits record expected).1.Consistent :=
    h.ledger.effect heffect
  cases hanswer : (engine.ledger.insert limits record expected).2 with
  | error fault =>
    rw [hanswer] at heffect
    exact .nil rfl heffect.alike.flagged_eq
  | ok insertion =>
    obtain ⟨-, -, -, hlocal, hflagged⟩ := h.ledger.flagged_insert hanswer
    have hevent := event?_stored h.ledger hanswer
    refine .single ?_ ?_ ⟨hnext.nodup_raised _ _ _, hlocal⟩
    · rw [hevent]
      rfl
    · rw [Deed.notice?, hevent, foldl_applied_conflictEvent?]
      exact hflagged

/-- Insertions in turn are explained by their answers, up to the first refusal. -/
theorem tells_inTurn_add (records : List Record) :
    Tells engine (engine.insertions records) (inTurn add engine records).1 := by
  induction records generalizing engine with
  | nil => exact .nil rfl rfl
  | cons record rest ih =>
    have hfirst : Tells engine (engine.doneAdding record (engine.add record))
        (engine.add record).1 := h.tells_insert engine.limits record none
    have hnext : (engine.add record).1.Sound := h.insert engine.limits record none
    rw [insertions, inTurn_cons_fst]
    rw [doneAdding] at hfirst
    cases hanswer : (engine.add record).2 with
    | error fault =>
      rw [hanswer] at hfirst
      exact hfirst
    | ok insertion =>
      rw [hanswer] at hfirst
      exact hfirst.append (ih hnext)

/-- Every request is explained by what the engine did at it. -/
theorem tells_step (request : Request) :
    Tells engine (engine.deeds request) (engine.step request).1 := by
  cases request with
  | select task w pool options => exact tells_select engine task w pool options
  | selectRegistered task w => exact tells_select engine task w _ _
  | add record => exact h.tells_insert engine.limits record none
  | addExpecting record revision => exact h.tells_insert engine.limits record (some revision)
  | transition id next =>
    rw [deeds]
    cases hanswer : (engine.transition id next).2 with
    | error fault =>
      have heffect := Ledger.transition_effect engine.ledger engine.limits id next
      have hrefused : (engine.ledger.transition engine.limits id next).2 = .error fault := hanswer
      rw [hrefused] at heffect
      exact .nil rfl heffect.alike.flagged_eq
    | ok record =>
      have hflagged := h.ledger.flagged_transition hanswer
      exact .single rfl hflagged trivial
  | remove id =>
    rw [deeds]
    cases hanswer : (engine.remove id).2 with
    | error fault =>
      have heffect := Ledger.remove_effect engine.ledger engine.limits id
      have hrefused : (engine.ledger.remove id).2 = .error fault := hanswer
      rw [hrefused] at heffect
      exact .nil rfl heffect.alike.flagged_eq
    | ok record =>
      have hflagged := h.ledger.flagged_remove hanswer
      exact .single rfl hflagged trivial
  | decode text => exact .nil rfl rfl
  | load text =>
    show Tells engine (engine.deeds (.load text)) (engine.load text).1
    rw [deeds, load_eq]
    cases (engine.intake.allocationsOfText text).2 with
    | error fault => exact .nil rfl rfl
    | ok records =>
      have hrecords := h.tells_inTurn_add records
      exact ⟨hrecords.outlet, hrecords.flagged, hrecords.namesAll⟩

/-- A run is explained by what the engine did over it. -/
theorem tells_run (requests : List Request) :
    Tells engine (engine.history requests) (engine.run requests) := by
  induction requests generalizing engine with
  | nil => exact .nil rfl rfl
  | cons request rest ih =>
    have hfirst := h.tells_step request
    have hrest := ih (h.step request)
    exact hfirst.append hrest

end Sound

/-- A journal has the events that it was handed at its end. -/
theorem foldl_emit_journal (entries events : List Event) :
    events.foldl Outlet.emit (.journal entries) = .journal (entries ++ events) := by
  induction events generalizing entries with
  | nil => rw [List.append_nil, List.foldl_nil]
  | cons event rest ih =>
    rw [List.foldl_cons, Outlet.emit, ih, List.append_assoc, List.singleton_append]

/-- For every engine there can be and all requests, refused ones and bulk loads included: the outlet
was handed, in order, the events of what the engine did, and a journal has exactly these added. The
ids that the event of a stored record names are, each once, all that its insertion flagged in the
whole ledger. Who hears the events, and learns which records moved and went, knows the flagged ids
after the run. -/
theorem events_tell {engine : Engine} (h : engine.Reachable) (requests : List Request) :
    let deeds := engine.history requests
    let last := engine.run requests
    last.outlet = (deeds.filterMap Deed.event?).foldl Outlet.emit engine.outlet ∧
    (∀ entries, engine.outlet = .journal entries →
      last.outlet = .journal (entries ++ deeds.filterMap Deed.event?)) ∧
    (∀ deed ∈ deeds, deed.NamesAll) ∧
    last.ledger.flagged =
      (deeds.filterMap Deed.notice?).foldl Notice.applied engine.ledger.flagged := by
  intro deeds last
  have htells : Tells engine deeds last := h.sound.tells_run requests
  refine ⟨htells.outlet, fun entries hentries => ?_, htells.namesAll, htells.flagged⟩
  rw [htells.outlet, hentries, foldl_emit_journal]

/-- Two orders for the press at once, of which one is taken out again and the other confirmed. -/
def pressRequests : List Request :=
  [.add (pressOrder "a"), .add (pressOrder "b"), .remove "a", .transition "b" .confirmed]

/-- The second order is reported with both ids, the new one first, and from the report and the two
answers it is known that no order is in conflict at the end. -/
theorem events_tell_press :
    (pressEngine.run pressRequests).outlet =
        .journal [.conflictDetected "press" "b" ["b", "a"] 2 1] ∧
      (pressEngine.run pressRequests).ledger.flagged = ∅ := by
  obtain ⟨_, hjournal, _, hflagged⟩ := events_tell reachable_pressEngine pressRequests
  have hevents : (pressEngine.history pressRequests).filterMap Deed.event? =
      [.conflictDetected "press" "b" ["b", "a"] 2 1] := by cbv
  have hnotices : (pressEngine.history pressRequests).filterMap Deed.notice? =
      [.event (.conflictDetected "press" "b" ["b", "a"] 2 1),
        .removed ((pressOrder "a").withStatus .conflicted),
        .moved ((pressOrder "b").withStatus .confirmed)] := by cbv
  have hstart : pressEngine.ledger.flagged = ∅ := rfl
  refine ⟨?_, ?_⟩
  · rw [hjournal [] rfl, hevents, List.nil_append]
  · rw [hflagged, hnotices, hstart]
    decide

end ShopFloor.Engine
