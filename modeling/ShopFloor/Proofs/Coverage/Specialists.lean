import Mathlib
import ShopFloor.Proofs.Coverage.Staffing

/-!
# Specialists are never misspent

Where nobody holds two of the skills that requirements name, the requirements compete for a profile
within one skill only, and there the strictest is served first: whoever meets it meets the later
ones as well, so nobody is spent whom a later one needs and cannot replace. A pool of specialists
with different ids falls short only of what no assignment could cover, in whatever order the
requirements and the profiles are listed. Which profiles are assigned may depend on the order of the
requirements, and is left out. Main statements: `isCovered_iff_of_specialised`,
`shortfall_of_specialised`.
-/

namespace ShopFloor.Coverage

variable {requirements requirements' : List Requirement} {pool pool' : List Profile}

/-- Whether nobody in a pool holds, at any level, two different skills that requirements name. -/
def Specialised (requirements : List Requirement) (pool : List Profile) : Prop :=
  ∀ p ∈ pool, ∀ r ∈ requirements, ∀ s ∈ requirements,
    p.level? r.skill ≠ none → p.level? s.skill ≠ none → r.skill = s.skill

/-- The order of the requirements and of the pool does not matter. -/
theorem Specialised.perm (h : Specialised requirements pool)
    (hrequirements : requirements'.Perm requirements) (hpool : pool'.Perm pool) :
    Specialised requirements' pool' := fun p hp r hr s hs =>
  h p (hpool.mem_iff.mp hp) r (hrequirements.mem_iff.mp hr) s (hrequirements.mem_iff.mp hs)

/-- Specialists are not contested: of two requirements that one of them meets, the one served first
is met by no one who does not meet the other. -/
theorem Specialised.uncontested (h : Specialised requirements pool) :
    Uncontested requirements pool := by
  refine uncontested_of_one_skill fun p hp r hr s hs hmeets hmeets' => ?_
  obtain ⟨level, hlevel, -⟩ := Profile.meets_iff.mp hmeets
  obtain ⟨level', hlevel', -⟩ := Profile.meets_iff.mp hmeets'
  exact h p hp r hr s hs (by simp [hlevel]) (by simp [hlevel'])

/-- What can be assigned can be assigned in whatever order the requirements and the pool are. -/
theorem Assigns.reordered {covers : List Cover} (h : Assigns requirements pool covers)
    (hrequirements : requirements'.Perm requirements) (hpool : pool'.Perm pool) :
    Assigns requirements' pool' covers := by
  refine ⟨h.requirements.trans hrequirements.symm, h.count, fun c hc id hid => ?_, h.distinct⟩
  obtain ⟨p, hp, hqualified⟩ := h.qualified c hc id hid
  exact ⟨p, hpool.mem_iff.mpr hp, hqualified⟩

/-- A pool covers requirements when some coverage is found. -/
theorem isCovered_iff_exists :
    isCovered requirements pool = true ↔ ∃ coverage, ofPool requirements pool = .ok coverage := by
  rw [isCovered]
  cases ofPool requirements pool with
  | ok coverage => exact ⟨fun _ => ⟨coverage, rfl⟩, fun _ => rfl⟩
  | error missing => simp [Except.isOk, Except.toBool]

/-- Specialists with different ids cover requirements exactly when these can be assigned at all. -/
theorem isCovered_iff_of_specialised (hnodup : (pool.map (·.id)).Nodup)
    (hspecial : Specialised requirements pool) :
    isCovered requirements pool = true ↔ ∃ covers, Assigns requirements pool covers := by
  constructor
  · intro hcovered
    obtain ⟨coverage, hcoverage⟩ := isCovered_iff_exists.mp hcovered
    exact ⟨_, (ofPool_eq_ok_iff.mp hcoverage).assigns⟩
  · rintro ⟨covers, hassigns⟩
    rw [isCovered_iff_exists]
    cases hanswer : ofPool requirements pool with
    | ok coverage => exact ⟨coverage, rfl⟩
    | error missing =>
      exact absurd hanswer
        (ofPool_ne_error_of_uncontested hnodup hspecial.uncontested hassigns missing)

/-- A pool of specialists with different ids falls short only of requirements that no assignment of
distinct profiles covers, and what it answers otherwise is such an assignment. Whether it covers the
requirements is the same for every order of the requirements and of the pool. -/
theorem shortfall_of_specialised (requirements : List Requirement) (pool : List Profile)
    (hnodup : (pool.map (·.id)).Nodup) (hspecial : Specialised requirements pool) :
    (∀ missing, ofPool requirements pool = .error missing →
      ¬ ∃ covers, Assigns requirements pool covers) ∧
    (∀ coverage, ofPool requirements pool = .ok coverage →
      Assigns requirements pool coverage.covers) ∧
    ∀ requirements' pool', requirements'.Perm requirements → pool'.Perm pool →
      isCovered requirements' pool' = isCovered requirements pool := by
  refine ⟨fun missing hshort hassigns => ?_, fun coverage hcoverage => ?_,
    fun requirements' pool' hrequirements hpool => ?_⟩
  · have hcovered := (isCovered_iff_of_specialised hnodup hspecial).mpr hassigns
    obtain ⟨coverage, hcoverage⟩ := isCovered_iff_exists.mp hcovered
    rw [hshort] at hcoverage
    cases hcoverage
  · exact (ofPool_eq_ok_iff.mp hcoverage).assigns
  · have hnodup' : (pool'.map (·.id)).Nodup := (hpool.map _).nodup_iff.mpr hnodup
    rw [Bool.eq_iff_iff, isCovered_iff_of_specialised hnodup hspecial,
      isCovered_iff_of_specialised hnodup' (hspecial.perm hrequirements hpool)]
    constructor
    · rintro ⟨covers, hassigns⟩
      exact ⟨covers, hassigns.reordered hrequirements.symm hpool.symm⟩
    · rintro ⟨covers, hassigns⟩
      exact ⟨covers, hassigns.reordered hrequirements hpool⟩

/-- Two welders, one of them a master, and a fitter. -/
def workshop : List Profile :=
  [operator "ann" [("welding", .master)], operator "bo" [("welding", .basic)],
    operator "cy" [("fitting", .expert)]]

/-- Of the workshop, a helper, a fitter and an expert welder are found, also where the expert is
asked for first; two expert welders beside a fitter are not, and no assignment has them. -/
theorem shortfall_of_specialised_workshop :
    let helper := Requirement.single "welding" .basic
    let fitter := Requirement.single "fitting" .basic
    let expert := Requirement.single "welding" .expert
    let experts : Requirement := ⟨"welding", .expert, 2, by decide⟩
    (workshop.map (·.id)).Nodup ∧ Specialised [helper, fitter, expert] workshop ∧
      isCovered [helper, fitter, expert] workshop = true ∧
      isCovered [expert, helper, fitter] workshop.reverse = true ∧
      Specialised [fitter, experts] workshop ∧
      ofPool [fitter, experts] workshop = .error ⟨experts, 1⟩ ∧
      ¬ ∃ covers, Assigns [fitter, experts] workshop covers := by
  intro helper fitter expert experts
  have hnodup : (workshop.map (·.id)).Nodup := by decide
  have hspecial : Specialised [helper, fitter, expert] workshop := by
    unfold Specialised
    decide
  have hshort : Specialised [fitter, experts] workshop := by
    unfold Specialised
    decide
  have hcovered : isCovered [helper, fitter, expert] workshop = true := by cbv
  have hmissing : ofPool [fitter, experts] workshop = .error ⟨experts, 1⟩ := by cbv
  obtain ⟨-, -, hreordered⟩ := shortfall_of_specialised _ _ hnodup hspecial
  obtain ⟨hnone, -, -⟩ := shortfall_of_specialised _ _ hnodup hshort
  have hrequirements : [expert, helper, fitter].Perm [helper, fitter, expert] := by decide
  refine ⟨hnodup, hspecial, hcovered, ?_, hshort, hmissing, hnone _ hmissing⟩
  rw [hreordered _ _ hrequirements (List.reverse_perm workshop), hcovered]

end ShopFloor.Coverage
