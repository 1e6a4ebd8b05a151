import ShopFloor.NameMap
import ShopFloor.NameSet
import ShopFloor.Skill.Requirement
import ShopFloor.Window.Cover

/-!
# Capability profiles

A profile states what a resource declares it can do and when it cannot: the highest level it holds
in each skill, the cells it serves, the windows in which it is away, and how many allocations it
carries at once. How much of its time is booked is not part of it.
-/

namespace ShopFloor

/-- The kinds of resources. -/
inductive Kind where
  /-- A person with skills. -/
  | operator
  /-- A production cell. -/
  | cell
  /-- A machine, which may serve several cells. -/
  | machine
  deriving DecidableEq, Repr, Inhabited

namespace Kind

/-- The kinds. -/
def all : List Kind := [operator, cell, machine]

/-- The name of a kind. -/
def name : Kind → String
  | operator => "operator"
  | cell => "cell"
  | machine => "machine"

end Kind

/-- What a resource declares. -/
structure Profile where
  /-- The id of the resource. -/
  id : String
  /-- What kind of resource it is. -/
  kind : Kind
  /-- The highest level held in each skill. -/
  skills : NameMap Level
  /-- The cells it serves besides itself. -/
  cells : NameSet
  /-- The windows in which it is away. -/
  unavailable : List Window
  /-- Whether it is in use at all. -/
  active : Bool
  /-- How many allocations it carries at once. -/
  maxConcurrent : Nat
  deriving DecidableEq, Repr

namespace Profile

/-- An active resource without skills, cells or absences that carries one allocation. -/
def ofKind (kind : Kind) (id : String) : Profile :=
  ⟨id, kind, .empty, .empty, [], true, 1⟩

/-- The level held in a skill. -/
def level? (p : Profile) (skill : String) : Option Level := p.skills.get? skill

/-- The resource with one more skill. Of two levels in one skill the higher is held. -/
def withSkill (p : Profile) (skill : String) (level : Level) : Profile :=
  let held := match p.level? skill with
    | some old => old.max level
    | none => level
  { p with skills := p.skills.insert skill held }

/-- A declared skill is held at the declared level or above. -/
theorem level?_withSkill (p : Profile) (skill : String) (level : Level) :
    ∃ held, (p.withSkill skill level).level? skill = some held ∧ level ≤ held := by
  simp only [withSkill, level?, NameMap.get?_insert, if_true, Option.some.injEq, exists_eq_left']
  split
  · exact Level.le_max_right _ _
  · exact Nat.le_refl _

/-- Whether a resource alone has the skill and level of a requirement. -/
def meets (p : Profile) (r : Requirement) : Bool :=
  match p.level? r.skill with
  | some level => r.level ≤ level
  | none => false

/-- Whether a resource serves a cell: it is no operator, and it is the cell or lists it. -/
def serves (p : Profile) (cell : String) : Bool :=
  p.kind ≠ .operator && (p.id = cell || p.cells.contains cell)

/-- Whether a resource is in use and not away at any instant of a window. -/
def availableDuring (p : Profile) (w : Window) : Bool :=
  p.active && !p.unavailable.any fun away => away.overlaps w

/-- The time of a window in which a resource is available. -/
def availableTime (p : Profile) (w : Window) : Int :=
  if p.active then w.duration - w.covered p.unavailable else 0

/-- The minutes of a window in which a resource is available. -/
def availableMinutes (p : Profile) (w : Window) : Float :=
  Float.ofInt (p.availableTime w) / Float.ofInt Window.minute

end Profile

end ShopFloor
