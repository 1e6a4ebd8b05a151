import ShopFloor.Skill.Level
import ShopFloor.Text.Split

/-!
# Skill requirements

A requirement asks for a number of distinct holders of a skill at or above a level. Its text is
`skill:level`, followed by `*` and the number unless one holder is asked for. Reading also takes
the multiplication sign `×`, blank around each part, a plus sign before the number and leading
zeros in it.
-/

namespace ShopFloor

/-- A number of holders of a skill, each at or above a level. -/
structure Requirement where
  /-- The skill asked for. -/
  skill : String
  /-- The lowest level that will do. -/
  level : Level
  /-- The number of distinct holders. -/
  quantity : Nat
  /-- At least one holder is asked for. -/
  one_le_quantity : 1 ≤ quantity
  deriving DecidableEq, Repr

namespace Requirement

/-- The largest number of holders that a text can ask for. -/
def maxQuantity : Nat := 0xFFFFFFFF

/-- The requirement of a number of holders, which must be positive. -/
def make (skill : String) (level : Level) (quantity : Nat) : Except Fault Requirement :=
  if h : 0 < quantity then .ok ⟨skill, level, quantity, h⟩
  else .error (.invalidQuantity skill quantity)

/-- The requirement of one holder. -/
def single (skill : String) (level : Level) : Requirement := ⟨skill, level, 1, Nat.le_refl 1⟩

/-- A requirement is made exactly of a positive number of holders. -/
theorem make_eq_ok_iff {skill : String} {level : Level} {quantity : Nat} {r : Requirement} :
    make skill level quantity = .ok r ↔
      r.skill = skill ∧ r.level = level ∧ r.quantity = quantity := by
  obtain ⟨s, l, q, hq⟩ := r
  unfold make
  split
  · simp [Except.ok.injEq, eq_comm]
  · simp only [reduceCtorEq, false_iff, not_and]
    intro _ _ h
    omega

/-- The text of a requirement. -/
def text (r : Requirement) : String :=
  let base := r.skill ++ ":" ++ r.level.name
  if r.quantity = 1 then base else base ++ "*" ++ Text.natText r.quantity

/-- The signs between a level and a number of holders. -/
def isTimes (c : Char) : Bool := c == '*' || c == '×'

/-- A number of holders: digits with an optional plus sign before them, up to `maxQuantity`. -/
def readQuantity? (cs : List Char) : Option Nat :=
  let digits := match cs with
    | '+' :: rest => rest
    | _ => cs
  (Text.readDigits? digits).filter (· ≤ maxQuantity)

/-- The part of a text after its colon: a level and a number of holders, one by default. -/
def readDemand (text : String) (cs : List Char) : Except Fault (Level × Nat) :=
  match Text.cut? isTimes cs with
  | none => do
    let level ← Level.parse (String.ofList cs)
    return (level, 1)
  | some (before, after) =>
    match readQuantity? (Text.trimChars after) with
    | none => .error (.malformedRequirement text)
    | some quantity => do
      let level ← Level.parse (String.ofList before)
      return (level, quantity)

/-- A requirement read from its text. Of several faults the form of the text is reported first,
then the level, then the number of holders. -/
def parse (text : String) : Except Fault Requirement :=
  match Text.cut? (· == ':') text.toList with
  | none => .error (.malformedRequirement text)
  | some (name, demand) =>
    let skill := Text.trimChars name
    if skill.isEmpty then .error (.malformedRequirement text)
    else do
      let (level, quantity) ← readDemand text demand
      make (String.ofList skill) level quantity

end Requirement

end ShopFloor
