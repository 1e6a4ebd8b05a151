import Mathlib
import ShopFloor.Engine
import ShopFloor.Proofs.InTurn
import ShopFloor.Proofs.Intake.Recall
import ShopFloor.Proofs.Ledger.Consistency

/-!
# Runs of an engine

An engine is asked for choices, for changes of its records and to read texts. Between requests its
registry, policy and outlet may be replaced, and its ledger may be called without it. Whatever was
done, the index of its ledger agrees with the books and its intake remembers readings only. Which
requests are refused is left out. Main statements: `reported_eq`, `load_eq`, `Sound.step`,
`Reachable.sound`.
-/

namespace ShopFloor.Engine

/-- A request that an engine carries out or refuses. -/
inductive Request where
  /-- Choose among the variants of a task, from a pool. -/
  | select (task : String) (w : Window) (pool : List Profile) (options : ChoiceOptions)
  /-- Choose among the variants of a task, from all registered resources. -/
  | selectRegistered (task : String) (w : Window)
  /-- Insert a record. -/
  | add (record : Record)
  /-- Insert a record if its book is at a revision. -/
  | addExpecting (record : Record) (revision : Nat)
  /-- Move the record with an id to a stage. -/
  | transition (id : String) (next : Status)
  /-- Take out the record with an id. -/
  | remove (id : String)
  /-- Read requirements from the text of a list. -/
  | decode (text : String)
  /-- Record the rows of a text. -/
  | load (text : String)

/-- The answer to a request that is not refused. -/
inductive Answer where
  /-- A choice was made. -/
  | chosen (choice : Choice)
  /-- A record was inserted. -/
  | inserted (insertion : Insertion)
  /-- A record moved and is now as given. -/
  | moved (record : Record)
  /-- A record was taken out. -/
  | removed (record : Record)
  /-- Requirements were read. -/
  | decoded (requirements : List Requirement)
  /-- All rows were recorded. -/
  | loaded (insertions : List Insertion)

/-- The engine after a request, and the answer to it. -/
def step (engine : Engine) : Request → Engine × Except Fault Answer
  | .select task w pool options => (engine.select task w pool options).map id (·.map .chosen)
  | .selectRegistered task w => (engine.selectRegistered task w).map id (·.map .chosen)
  | .add record => (engine.add record).map id (·.map .inserted)
  | .addExpecting record revision => (engine.addExpecting record revision).map id (·.map .inserted)
  | .transition stored next => (engine.transition stored next).map id (·.map .moved)
  | .remove stored => (engine.remove stored).map id (·.map .removed)
  | .decode text => (engine.decodeRequirements text).map id (·.map .decoded)
  | .load text => (engine.load text).map id (·.map .loaded)

/-- The engine after requests one after another. -/
def run (engine : Engine) : List Request → Engine
  | [] => engine
  | request :: rest => (engine.step request).1.run rest

/-- The engines that there can be. -/
inductive Reachable : Engine → Prop
  /-- An engine starts without records. -/
  | new {registry : Registry} {settings : Settings} {engine : Engine}
      (hnew : ofSettings registry settings = .ok engine) : Reachable engine
  /-- The registry and the policy change, and events are taken from the outlet. -/
  | changed {engine : Engine} (h : Reachable engine) (registry : Registry)
      (policy : Option Policy) (outlet : Outlet) :
      Reachable { engine with registry, policy, outlet }
  /-- The ledger is called without the engine. -/
  | called {engine : Engine} (h : Reachable engine) (call : Call) :
      Reachable { engine with ledger := (engine.ledger.step call).1 }
  /-- The engine carries out a request. -/
  | asked {engine : Engine} (h : Reachable engine) (request : Request) :
      Reachable (engine.step request).1

/-- Whether the parts of an engine are as its requests rely on. -/
structure Sound (engine : Engine) : Prop where
  /-- The index and the books agree. -/
  ledger : engine.ledger.Consistent
  /-- Only readings are remembered. -/
  intake : engine.intake.Faithful

/-- The events by which an insertion is reported. -/
def reportOf : Except Fault Insertion → List Event
  | .error _ => []
  | .ok insertion => (conflictEvent? insertion).toList

/-- A report puts the ledger in place and hands its events to the outlet, and leaves the answer as
it is. -/
theorem reported_eq (engine : Engine) (outcome : Ledger × Except Fault Insertion) :
    engine.reported outcome =
      ({ engine with
          ledger := outcome.1, outlet := (reportOf outcome.2).foldl Outlet.emit engine.outlet },
        outcome.2) := by
  obtain ⟨ledger, fault | insertion⟩ := outcome
  · rfl
  · unfold reported reportOf
    dsimp only
    cases conflictEvent? insertion <;> rfl

/-- A choice changes nothing but the outlet. -/
theorem select_fst (engine : Engine) (task : String) (w : Window) (pool : List Profile)
    (options : ChoiceOptions) : (engine.select task w pool options).1 =
      { engine with outlet := (engine.select task w pool options).1.outlet } := by
  unfold select
  cases engine.choose task w pool options <;> rfl

/-- What a request for a choice is answered. -/
theorem select_snd (engine : Engine) (task : String) (w : Window) (pool : List Profile)
    (options : ChoiceOptions) :
    (engine.select task w pool options).2 = engine.choose task w pool options := by
  unfold select
  cases engine.choose task w pool options <;> rfl

/-- An insertion does not look at what is remembered of batches. -/
theorem add_withIntake (engine : Engine) (intake : Intake) (record : Record) :
    add { engine with intake } record =
      ({ (engine.add record).1 with intake }, (engine.add record).2) := by
  unfold add
  rw [reported_eq, reported_eq]
  rfl

/-- The rows of a text are all read before they are recorded, and recorded as insertions in turn
record them. -/
theorem load_eq (engine : Engine) (text : String) :
    let intake := (engine.intake.allocationsOfText text).1
    engine.load text =
      match (engine.intake.allocationsOfText text).2 with
      | .error fault => ({ engine with intake }, .error fault)
      | .ok records =>
        ({ (inTurn add engine records).1 with intake }, (inTurn add engine records).2) := by
  intro intake
  have hload : engine.load text =
      match (engine.intake.allocationsOfText text).2 with
      | .error fault => ({ engine with intake }, .error fault)
      | .ok records => inTurn add { engine with intake } records := rfl
  rw [hload]
  cases (engine.intake.allocationsOfText text).2 with
  | error fault => rfl
  | ok records =>
    exact inTurn_map (fun state => { state with intake })
      (fun state record => add_withIntake state intake record) engine records

namespace Sound

variable {engine : Engine} (h : engine.Sound)

include h

/-- A sound engine is sound with any outlet. -/
theorem withOutlet (outlet : Outlet) : Sound { engine with outlet } := ⟨h.ledger, h.intake⟩

/-- A choice keeps an engine sound. -/
theorem select (task : String) (w : Window) (pool : List Profile) (options : ChoiceOptions) :
    (engine.select task w pool options).1.Sound := by
  rw [select_fst]
  exact h.withOutlet _

/-- An insertion keeps an engine sound, reported or refused. -/
theorem insert (limits : Limits) (record : Record) (expected : Option Nat) :
    (engine.reported (engine.ledger.insert limits record expected)).1.Sound := by
  have heffect := Ledger.insert_effect engine.ledger limits record expected
  rw [reported_eq]
  exact ⟨h.ledger.effect heffect, h.intake⟩

/-- Insertions in turn keep an engine sound. -/
theorem inTurn_add (records : List Record) : (inTurn Engine.add engine records).1.Sound :=
  inTurn_keeps Sound (fun _ record hsound => hsound.insert _ record none) h records

/-- Every request keeps an engine sound. -/
theorem step (request : Request) : (engine.step request).1.Sound := by
  cases request with
  | select task w pool options => exact h.select task w pool options
  | selectRegistered task w => exact h.select task w _ _
  | add record => exact h.insert engine.limits record none
  | addExpecting record revision => exact h.insert engine.limits record (some revision)
  | transition id next =>
    have heffect := Ledger.transition_effect engine.ledger engine.limits id next
    exact ⟨h.ledger.effect heffect, h.intake⟩
  | remove id =>
    have heffect := Ledger.remove_effect engine.ledger engine.limits id
    exact ⟨h.ledger.effect heffect, h.intake⟩
  | decode text => exact ⟨h.ledger, (h.intake.step (.requirementList text)).2⟩
  | load text =>
    have hintake : (engine.intake.allocationsOfText text).1.Faithful :=
      (h.intake.step (.allocations text)).2
    show (engine.load text).1.Sound
    rw [load_eq]
    cases (engine.intake.allocationsOfText text).2 with
    | error fault => exact ⟨h.ledger, hintake⟩
    | ok records => exact ⟨(h.inTurn_add records).ledger, hintake⟩

end Sound

/-- Every engine that there can be is sound. -/
theorem Reachable.sound {engine : Engine} (h : engine.Reachable) : engine.Sound := by
  induction h with
  | @new registry settings engine hnew =>
    obtain ⟨checked, _, hengine⟩ := bind_eq_ok_iff.mp hnew
    cases hengine
    exact ⟨Ledger.consistent_empty, Intake.faithful_ofCapacity _⟩
  | changed _ registry policy outlet ih => exact ⟨ih.ledger, ih.intake⟩
  | @called engine _ call ih =>
    have heffect := Ledger.step_effect engine.ledger call
    exact ⟨ih.ledger.effect heffect, ih.intake⟩
  | asked _ request ih => exact ih.step request

/-- An engine that knows no resource and writes its events down, as an example. -/
def pressEngine : Engine :=
  ⟨.empty, .empty, none, .journal [], .ofCapacity 256, .standard⟩

/-- There can be such an engine. -/
theorem reachable_pressEngine : pressEngine.Reachable := by
  have hnew : ofSettings .empty .standard = .ok { pressEngine with outlet := .unset } := by cbv
  exact .changed (.new hnew) .empty none (.journal [])

end ShopFloor.Engine
