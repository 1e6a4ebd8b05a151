import ShopFloor.Fault

/-!
# Skill levels

Five levels of proficiency in a fixed order. A level is read from its name in any case of letters
with blank around it.
-/

namespace ShopFloor

/-- A level of proficiency in a skill. -/
inductive Level where
  /-- The least qualified. -/
  | basic
  /-- Works alone on common tasks. -/
  | competent
  /-- Works alone on all tasks. -/
  | proficient
  /-- Solves what others cannot. -/
  | expert
  /-- The most qualified. -/
  | master
  deriving DecidableEq, Repr, Inhabited

namespace Level

/-- The levels, from least to most qualified. -/
def all : List Level := [basic, competent, proficient, expert, master]

/-- The place of a level in the order. -/
def rank : Level → Nat
  | basic => 0
  | competent => 1
  | proficient => 2
  | expert => 3
  | master => 4

/-- Levels of one rank are equal. -/
theorem rank_injective {a b : Level} (h : a.rank = b.rank) : a = b := by
  cases a <;> cases b <;> first | rfl | exact absurd h (by decide)

instance : LE Level := ⟨fun a b => a.rank ≤ b.rank⟩

instance (a b : Level) : Decidable (a ≤ b) := inferInstanceAs (Decidable (a.rank ≤ b.rank))

instance : Ord Level := ⟨fun a b => compare a.rank b.rank⟩

/-- The order of levels is the order of their ranks. -/
theorem le_iff_rank {a b : Level} : a ≤ b ↔ a.rank ≤ b.rank := Iff.rfl

/-- The higher of two levels. -/
def max (a b : Level) : Level := if a ≤ b then b else a

/-- The higher of two levels is at least the second. -/
theorem le_max_right (a b : Level) : b ≤ a.max b := by
  unfold max
  split
  · exact Nat.le_refl _
  · next h => exact Nat.le_of_not_le h

/-- The name of a level. -/
def name : Level → String
  | basic => "basic"
  | competent => "competent"
  | proficient => "proficient"
  | expert => "expert"
  | master => "master"

/-- The level with a name, whatever the case of its letters and the blank around it. -/
def ofText? (text : String) : Option Level :=
  all.find? fun level => level.name = Text.lower (Text.trim text)

/-- A level read from its name. -/
def parse (text : String) : Except Fault Level :=
  match ofText? text with
  | some level => .ok level
  | none => .error (.unknownLevel text)

end Level

end ShopFloor
