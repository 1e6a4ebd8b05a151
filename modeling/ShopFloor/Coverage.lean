import ShopFloor.Profile

/-!
# Covering requirements from a pool

A list of requirements is covered by distinct profiles of a pool, the strictest requirement first.
Each takes the most qualified of the profiles that are left, lower ids first among equals, and what
it takes is gone for the others. The first requirement that finds too few is the shortfall. A pool
counts each id once, by its first profile.
-/

namespace ShopFloor

/-- The profiles assigned to one requirement. -/
structure Cover where
  /-- The requirement. -/
  requirement : Requirement
  /-- The ids of the profiles that cover it, most qualified first. -/
  holders : List String
  deriving DecidableEq, Repr

/-- A successful assignment. -/
structure Coverage where
  /-- One cover for each requirement, strictest first. -/
  covers : List Cover
  deriving DecidableEq, Repr

/-- The first requirement that could not be covered. -/
structure Shortfall where
  /-- The requirement. -/
  requirement : Requirement
  /-- How many profiles were left that met it. -/
  found : Nat
  deriving DecidableEq, Repr

namespace Coverage

/-- All assigned ids, cover by cover. -/
def assigned (c : Coverage) : List String := c.covers.flatMap (·.holders)

/-- The profiles of a pool by id, the first of each id. -/
def byId (pool : List Profile) : NameMap Profile :=
  pool.foldr (fun p known => known.insert p.id p) .empty

/-- Requirements from the highest level to the lowest, those of one level as declared. -/
def strictestFirst (requirements : List Requirement) : List Requirement :=
  requirements.mergeSort fun a b => b.level ≤ a.level

/-- Profiles from the highest level in a skill to the lowest, those of one level as listed. -/
def bestFirst (skill : String) (profiles : List Profile) : List Profile :=
  let rank (p : Profile) := (p.level? skill).map Level.rank
  profiles.mergeSort fun a b => (rank b).getD 0 ≤ (rank a).getD 0

/-- The covers of requirements in order, each from the profiles that the ones before left. -/
def assign (remaining : List Profile) : List Requirement → Except Shortfall (List Cover)
  | [] => .ok []
  | r :: rest =>
    let qualified := remaining.filter (·.meets r)
    if qualified.length < r.quantity then .error ⟨r, qualified.length⟩
    else
      let holders := ((bestFirst r.skill qualified).take r.quantity).map (·.id)
      match assign (remaining.filter fun p => !holders.contains p.id) rest with
      | .error shortfall => .error shortfall
      | .ok covers => .ok (⟨r, holders⟩ :: covers)

/-- The coverage of requirements by a pool. -/
def ofPool (requirements : List Requirement) (pool : List Profile) : Except Shortfall Coverage :=
  (assign (byId pool).values (strictestFirst requirements)).map Coverage.mk

/-- Whether a pool covers requirements. -/
def isCovered (requirements : List Requirement) (pool : List Profile) : Bool :=
  (ofPool requirements pool).isOk

/-- The covers are those of the requirements, in order. -/
theorem requirements_of_assign {remaining : List Profile} {requirements : List Requirement}
    {covers : List Cover} (h : assign remaining requirements = .ok covers) :
    covers.map (·.requirement) = requirements := by
  induction requirements generalizing remaining covers with
  | nil =>
    cases h
    rfl
  | cons r rest ih =>
    simp only [assign] at h
    split at h
    · cases h
    · split at h
      · cases h
      · next hrest =>
        cases h
        simp [ih hrest]

end Coverage

end ShopFloor
