import ShopFloor.NameSet
import ShopFloor.Skill.Requirement

/-!
# Execution variants

A task can usually be carried out in several ways, which differ in time, cells and crew. Each way
is a variant; it always takes some time.
-/

namespace ShopFloor

/-- One way to carry out a task. -/
structure Variant where
  /-- The id of the variant. -/
  id : String
  /-- The task it belongs to. -/
  task : String
  /-- The time it takes, in minutes. -/
  minutes : Nat
  /-- The operators it needs, as declared. -/
  requirements : List Requirement
  /-- The cells it can run on. -/
  cells : NameSet
  /-- Whether it is the preferred way. -/
  primary : Bool
  /-- It takes some time. -/
  minutes_pos : 0 < minutes
  deriving DecidableEq, Repr

namespace Variant

/-- A way to carry out a task, which must take some time. -/
def make (id task : String) (minutes : Nat) (requirements : List Requirement) (cells : NameSet)
    (primary : Bool) : Except Fault Variant :=
  if h : 0 < minutes then .ok ⟨id, task, minutes, requirements, cells, primary, h⟩
  else .error (.invalidDuration id minutes)

/-- A variant is made exactly of a positive time, and has what it is made of. -/
theorem make_eq_ok_iff {id task : String} {minutes : Nat} {requirements : List Requirement}
    {cells : NameSet} {primary : Bool} {v : Variant} :
    make id task minutes requirements cells primary = .ok v ↔
      v.id = id ∧ v.task = task ∧ v.minutes = minutes ∧ v.requirements = requirements ∧
        v.cells = cells ∧ v.primary = primary := by
  obtain ⟨i, t, m, rs, cs, p, hm⟩ := v
  unfold make
  split
  · simp [eq_comm]
  · next h =>
    simp only [reduceCtorEq, false_iff]
    rintro ⟨-, -, rfl, -⟩
    exact h hm

/-- How many operators a variant needs in all. The count has 32 bits: past the largest number that
they hold it starts again at zero. -/
def headcount (v : Variant) : Nat :=
  v.requirements.foldl (fun total r => (total + r.quantity) % 0x100000000) 0

end Variant

end ShopFloor
