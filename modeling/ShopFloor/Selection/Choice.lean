import ShopFloor.Selection.Feasibility
import ShopFloor.Selection.Policy

/-!
# Choosing a variant

Of the variants of a task the feasible ones are kept, with the coverage that makes each feasible,
and the policy chooses among them. When none is feasible the answer says why, variant by variant.
-/

namespace ShopFloor

/-- What the caller may ask of a choice. -/
structure ChoiceOptions where
  /-- Whether faster variants come first. -/
  fastest : Bool
  /-- How many cells must be served. -/
  cellMatch : CellMatch
  deriving DecidableEq, Repr

/-- A variant that cannot run, and why. -/
structure Rejection where
  /-- The id of the variant. -/
  variant : String
  /-- The obstacle. -/
  obstacle : Obstacle
  deriving DecidableEq, Repr

/-- The outcome of a choice. -/
inductive Choice where
  /-- A feasible variant, how many there were, and the coverage of this one. -/
  | selected (variant : Variant) (feasible : Nat) (coverage : Coverage)
  /-- Nothing can run. -/
  | infeasible (rejections : List Rejection)
  deriving DecidableEq, Repr

namespace Choice

/-- The variant chosen, if any. -/
def variant? : Choice → Option Variant
  | selected variant _ _ => some variant
  | infeasible _ => none

/-- Whether a variant was chosen. -/
def isSelected : Choice → Bool
  | selected .. => true
  | infeasible _ => false

/-- The feasible ones of several variants, each with its coverage. -/
def feasibleOf (check : Variant → Except Obstacle Coverage) (variants : List Variant) :
    List (Variant × Coverage) :=
  variants.filterMap fun v =>
    match check v with
    | .ok coverage => some (v, coverage)
    | .error _ => none

/-- The rejections of several variants, in order. -/
def rejectionsOf (check : Variant → Except Obstacle Coverage) (variants : List Variant) :
    List Rejection :=
  variants.filterMap fun v =>
    match check v with
    | .ok _ => none
    | .error obstacle => some ⟨v.id, obstacle⟩

/-- Every variant is either feasible or rejected. -/
theorem length_feasibleOf_add_length_rejectionsOf (check : Variant → Except Obstacle Coverage)
    (variants : List Variant) :
    (feasibleOf check variants).length + (rejectionsOf check variants).length
      = variants.length := by
  induction variants with
  | nil => rfl
  | cons v rest ih =>
    unfold feasibleOf rejectionsOf at ih ⊢
    rw [List.filterMap_cons, List.filterMap_cons, List.length_cons]
    cases check v <;> simp only [List.length_cons] <;> omega

/-- The choice among variants in a window. Without a policy the standard one is followed. -/
def among (policy : Option Policy) (variants : List Variant) (pool : List Profile) (w : Window)
    (options : ChoiceOptions) : Except Fault Choice :=
  if variants.isEmpty then .error .noVariants
  else
    let operators := operatorsDuring pool w
    let check (v : Variant) := v.feasibility pool operators w options.cellMatch
    let feasible := feasibleOf check variants
    let ranking := policy.getD (.standard options.fastest)
    match Policy.firstLeast (fun a b => ranking.compare a.1 b.1) feasible with
    | some (variant, coverage) => .ok (.selected variant feasible.length coverage)
    | none => .ok (.infeasible (rejectionsOf check variants))

end Choice

end ShopFloor
