import ShopFloor.Selection.Choice
import ShopFloor.Text.Decimal

/-!
# Settings

The settings of an engine, each with a default. The four numbers among them must be positive; the
first that is zero is reported by its name.
-/

namespace ShopFloor

/-- The settings of an engine. -/
structure Settings where
  /-- The limit of resources that the registry does not know. -/
  defaultMaxConcurrent : Nat
  /-- The most entries that each memo keeps. -/
  cacheCapacity : Nat
  /-- The most events that a buffer holds. -/
  eventBuffer : Nat
  /-- Whether faster variants come first. -/
  prioritizeSpeed : Bool
  /-- How many cells of a variant must be served. -/
  cellMatch : CellMatch
  /-- The width of the slots in which occupancy is measured. -/
  slotMinutes : Nat
  deriving DecidableEq, Repr

namespace Settings

/-- The settings of an engine that is told nothing. -/
def standard : Settings := ⟨1, 256, 1024, false, .allListed, 60⟩

/-- The names and values of the settings that must be positive. -/
def positives (s : Settings) : List (String × Nat) :=
  [("default_max_concurrent", s.defaultMaxConcurrent), ("cache_capacity", s.cacheCapacity),
    ("event_buffer", s.eventBuffer), ("utilization_slot_minutes", s.slotMinutes)]

/-- The settings, if the numbers among them are positive. -/
def check (s : Settings) : Except Fault Settings :=
  match s.positives.find? (·.2 = 0) with
  | some (name, _) => .error (.settingNotPositive name)
  | none => .ok s

/-- Checked settings have four positive numbers. -/
theorem positive_of_check {s checked : Settings} (h : s.check = .ok checked) :
    0 < checked.defaultMaxConcurrent ∧ 0 < checked.cacheCapacity ∧ 0 < checked.eventBuffer ∧
      0 < checked.slotMinutes := by
  unfold check at h
  split at h
  · cases h
  · next hnone =>
    cases h
    simp only [positives, List.find?_eq_none, List.mem_cons, List.not_mem_nil, or_false,
      forall_eq_or_imp, forall_eq, decide_eq_true_eq] at hnone
    omega

/-- The options of a choice that follow from the settings. -/
def options (s : Settings) : ChoiceOptions := ⟨s.prioritizeSpeed, s.cellMatch⟩

/-- A truth value in words. -/
def boolText (b : Bool) : String := if b then "true" else "false"

/-- The text that describes settings. -/
def describe (s : Settings) : String :=
  "EngineConfig \x7b default_max_concurrent: " ++ Text.natText s.defaultMaxConcurrent
    ++ ", cache_capacity: " ++ Text.natText s.cacheCapacity
    ++ ", event_buffer: " ++ Text.natText s.eventBuffer
    ++ ", prioritize_speed: " ++ boolText s.prioritizeSpeed
    ++ ", cell_match: " ++ (match s.cellMatch with
      | .allListed => "AllListed"
      | .anyListed => "AnyListed")
    ++ ", utilization_slot_minutes: " ++ Text.natText s.slotMinutes ++ " \x7d"

end Settings

end ShopFloor
