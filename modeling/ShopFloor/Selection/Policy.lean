import ShopFloor.Variant

/-!
# Ranking variants

A policy is a chain of rules, each of which ranks variants by a score; lower is better. A later
rule decides only between variants that the earlier ones leave tied, and the ids decide last. The
built-in criteria score by whole numbers. A custom rule scores by floating-point numbers, and two
scores within the tolerance tie; so does a score that is no number. A tie within the tolerance need
not be transitive, so a chain with custom rules need not be an order.
-/

namespace ShopFloor

/-- The built-in scores. -/
inductive Criterion where
  /-- The time a variant takes. -/
  | fastest
  /-- Preferred variants before the others. -/
  | primary
  /-- The number of operators a variant needs. -/
  | leanest
  deriving DecidableEq, Repr

namespace Criterion

/-- The name of a criterion. -/
def name : Criterion → String
  | fastest => "FASTEST"
  | primary => "PRIMARY"
  | leanest => "LEANEST"

/-- The whole number by which a criterion ranks a variant. -/
def key : Criterion → Variant → Nat
  | fastest, v => v.minutes
  | primary, v => if v.primary then 0 else 1
  | leanest, v => v.headcount

/-- The score of a variant as a floating-point number. -/
def score (c : Criterion) (v : Variant) : Float := Float.ofNat (c.key v)

end Criterion

/-- A rule that ranks variants. -/
inductive Rule where
  /-- A built-in criterion. -/
  | criterion (c : Criterion)
  /-- A score of the caller's, under a name. -/
  | custom (name : String) (score : Variant → Float)

namespace Rule

/-- Scores no further apart than this tie. -/
def tolerance : Float := 1e-9

/-- The name of a rule. -/
def name : Rule → String
  | criterion c => c.name
  | custom name _ => name

/-- How two scores compare: a difference within the tolerance, or none at all, is a tie. -/
def compareScores (a b : Float) : Ordering :=
  if (a - b).abs > tolerance then
    if a < b then .lt else if b < a then .gt else .eq
  else .eq

/-- How a rule ranks two variants. -/
def order : Rule → Variant → Variant → Ordering
  | criterion c, a, b => compare (c.key a) (c.key b)
  | custom _ score, a, b => compareScores (score a) (score b)

end Rule

/-- A chain of rules. -/
structure Policy where
  /-- The rules, the one to be asked first at the head. -/
  rules : List Rule

namespace Policy

/-- The chain in common use: on demand the fastest first, then the preferred, then by id. -/
def standard (fastest : Bool) : Policy :=
  ⟨(if fastest then [.criterion .fastest] else []) ++ [.criterion .primary]⟩

/-- The names of the rules. -/
def names (policy : Policy) : List String := policy.rules.map (·.name)

/-- How a chain of rules ranks two variants. -/
def compareBy : List Rule → Variant → Variant → Ordering
  | [], a, b => compare a.id b.id
  | rule :: rest, a, b => (rule.order a b).then (compareBy rest a b)

/-- How a policy ranks two variants. -/
def compare (policy : Policy) (a b : Variant) : Ordering := compareBy policy.rules a b

/-- The first element of a list that no later one is found to beat on the way through it. -/
def firstLeast {α : Type} (order : α → α → Ordering) : List α → Option α
  | [] => none
  | first :: rest =>
    some (rest.foldl (fun best next => if order best next = .gt then next else best) first)

/-- Only an empty list has no least element. -/
theorem firstLeast_eq_none_iff {α : Type} {order : α → α → Ordering} {items : List α} :
    firstLeast order items = none ↔ items = [] := by
  cases items <;> simp [firstLeast]

/-- The variant that a policy prefers. -/
def best? (policy : Policy) (variants : List Variant) : Option Variant :=
  firstLeast policy.compare variants

/-- The text that describes a policy. -/
def describe (policy : Policy) : String :=
  "TieBreakPolicy \x7b rules: ["
    ++ ", ".intercalate (policy.names.map fun name => "\"" ++ name ++ "\"") ++ "] \x7d"

end Policy

end ShopFloor
