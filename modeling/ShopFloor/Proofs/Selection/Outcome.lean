import Mathlib
import ShopFloor.Proofs.Selection.Feasible
import ShopFloor.Proofs.Selection.Ranking
import ShopFloor.Selection.Choice

/-!
# What a choice comes to

A choice filters the variants by their feasibility and then takes the one that its policy prefers.
So there are three outcomes: the fault for an empty list, a rejection of every variant in turn, and
the preferred one of the feasible variants with its coverage. What the choice rests on, namely which
operators count, which variants can run and by what they are ranked, is told from the fields of the
profiles and variants. Main statements: `among_eq_infeasible_iff`, `among_eq_selected_iff`,
`grounds`, `among_first_least`.
-/

namespace ShopFloor

namespace Choice

/-- The check of a variant against the operators of a pool that are available in a window. -/
def check (pool : List Profile) (w : Window) (mode : CellMatch) (v : Variant) :
    Except Obstacle Coverage :=
  v.feasibility pool (operatorsDuring pool w) w mode

/-- Whether a variant can run in a window. -/
def canRun (pool : List Profile) (w : Window) (mode : CellMatch) (v : Variant) : Bool :=
  (check pool w mode v).isOk

/-- An answer is no fault exactly when it has a value. -/
theorem isOk_iff {ε α : Type} {answer : Except ε α} :
    answer.isOk = true ↔ ∃ value, answer = .ok value := by
  cases answer <;> simp [Except.isOk, Except.toBool]

section Filter

variable {check : Variant → Except Obstacle Coverage} {variants : List Variant}

/-- The feasible variants are listed with the coverage that their check yields. -/
theorem mem_feasibleOf {v : Variant} {coverage : Coverage} :
    (v, coverage) ∈ feasibleOf check variants ↔ v ∈ variants ∧ check v = .ok coverage := by
  unfold feasibleOf
  rw [List.mem_filterMap]
  constructor
  · rintro ⟨u, hu, hcheck⟩
    split at hcheck
    next hok =>
      cases hcheck
      exact ⟨hu, hok⟩
    next => cases hcheck
  · rintro ⟨hv, hok⟩
    exact ⟨v, hv, by rw [hok]⟩

/-- The feasible variants are those that pass the check, in order. -/
theorem map_fst_feasibleOf :
    (feasibleOf check variants).map (·.1) = variants.filter fun v => (check v).isOk := by
  induction variants with
  | nil => rfl
  | cons v rest ih =>
    unfold feasibleOf at ih ⊢
    rw [List.filterMap_cons, List.filter_cons]
    cases check v with
    | ok coverage => exact congrArg (v :: ·) ih
    | error obstacle => exact ih

/-- As many variants are feasible as pass the check. -/
theorem length_feasibleOf :
    (feasibleOf check variants).length = (variants.filter fun v => (check v).isOk).length := by
  rw [← map_fst_feasibleOf, List.length_map]

/-- No variant is feasible, and these are the rejections, exactly when the variants fail one by one
with the obstacles of the rejections. -/
theorem forall₂_rejection_iff {rejections : List Rejection} :
    List.Forall₂ (fun v r => r.variant = v.id ∧ check v = .error r.obstacle) variants rejections ↔
      feasibleOf check variants = [] ∧ rejectionsOf check variants = rejections := by
  induction variants generalizing rejections with
  | nil => simp [feasibleOf, rejectionsOf, eq_comm]
  | cons v rest ih =>
    unfold feasibleOf rejectionsOf at ih ⊢
    rw [List.filterMap_cons, List.filterMap_cons, List.forall₂_cons_left_iff]
    cases hcheck : check v with
    | ok coverage => simp
    | error obstacle =>
      constructor
      · rintro ⟨⟨id, reason⟩, others, ⟨hid, hreason⟩, hrest, rfl⟩
        obtain ⟨hnone, hothers⟩ := ih.mp hrest
        cases hid
        cases hreason
        exact ⟨hnone, congrArg _ hothers⟩
      · rintro ⟨hnone, rfl⟩
        exact ⟨_, _, ⟨rfl, rfl⟩, ih.mpr ⟨hnone, rfl⟩, rfl⟩

end Filter

section Outcome

variable {policy : Option Policy} {variants : List Variant} {pool : List Profile} {w : Window}
  {options : ChoiceOptions}

/-- The preferred feasible variant, and its coverage, of a list that is filtered. -/
theorem firstLeast_feasibleOf_eq_some_iff {ranking : Policy}
    {check : Variant → Except Obstacle Coverage} {v : Variant} {coverage : Coverage} :
    Policy.firstLeast (fun a b => ranking.compare a.1 b.1) (feasibleOf check variants) =
        some (v, coverage) ↔
      ranking.best? (variants.filter fun v => (check v).isOk) = some v ∧
        check v = .ok coverage := by
  rw [Policy.best?, ← map_fst_feasibleOf, Policy.firstLeast_map]
  constructor
  · intro hbest
    rw [hbest]
    exact ⟨rfl, (mem_feasibleOf.mp (Policy.mem_of_firstLeast hbest)).2⟩
  · rintro ⟨hbest, hcheck⟩
    obtain ⟨⟨u, found⟩, hfound, rfl⟩ := Option.map_eq_some_iff.mp hbest
    have hu := (mem_feasibleOf.mp (Policy.mem_of_firstLeast hfound)).2
    rw [hcheck] at hu
    cases hu
    exact hfound

/-- A choice fails exactly when there is nothing to choose from. -/
theorem among_eq_error_iff {fault : Fault} :
    among policy variants pool w options = .error fault ↔ variants = [] ∧ fault = .noVariants := by
  unfold among
  split
  next hnone => simp [List.isEmpty_iff.mp hnone, eq_comm]
  next hsome =>
    have hne : variants ≠ [] := fun heq => hsome (List.isEmpty_iff.mpr heq)
    dsimp only
    split <;> simp [hne]

/-- A choice rejects all variants exactly when there are some and they fail one by one with the
obstacles of the rejections. -/
theorem among_eq_infeasible_iff {rejections : List Rejection} :
    among policy variants pool w options = .ok (.infeasible rejections) ↔ variants ≠ [] ∧
      List.Forall₂ (fun v r => r.variant = v.id ∧
        check pool w options.cellMatch v = .error r.obstacle) variants rejections := by
  rw [forall₂_rejection_iff]
  unfold among
  split
  next hnone => simp [List.isEmpty_iff.mp hnone]
  next hsome =>
    have hne : variants ≠ [] := fun heq => hsome (List.isEmpty_iff.mpr heq)
    dsimp only
    split
    next hbest =>
      have hmem := Policy.mem_of_firstLeast hbest
      have hfeasible : feasibleOf (check pool w options.cellMatch) variants ≠ [] :=
        List.ne_nil_of_mem hmem
      simp [hfeasible]
    next hbest =>
      have hnone : feasibleOf (check pool w options.cellMatch) variants = [] :=
        Policy.firstLeast_eq_none_iff.mp hbest
      simp only [Except.ok.injEq, infeasible.injEq]
      exact ⟨fun h => ⟨hne, hnone, h⟩, fun h => h.2.2⟩

/-- A choice selects exactly the variant that the policy prefers among the feasible ones, with their
number and with the coverage of that variant. -/
theorem among_eq_selected_iff {v : Variant} {count : Nat} {coverage : Coverage} :
    among policy variants pool w options = .ok (.selected v count coverage) ↔
      (policy.getD (.standard options.fastest)).best?
          (variants.filter (canRun pool w options.cellMatch)) = some v ∧
        count = (variants.filter (canRun pool w options.cellMatch)).length ∧
        check pool w options.cellMatch v = .ok coverage := by
  have hiff := @firstLeast_feasibleOf_eq_some_iff variants
    (policy.getD (.standard options.fastest)) (check pool w options.cellMatch) v coverage
  have hlength : (feasibleOf (check pool w options.cellMatch) variants).length =
      (variants.filter (canRun pool w options.cellMatch)).length := length_feasibleOf
  unfold among
  split
  next hnone => simp [List.isEmpty_iff.mp hnone, Policy.best?, Policy.firstLeast]
  next =>
    dsimp only
    split
    next u found hbest =>
      have hscan : Policy.firstLeast _ (feasibleOf (check pool w options.cellMatch) variants) =
        some (u, found) := hbest
      rw [hscan] at hiff
      simp only [Option.some.injEq, Prod.mk.injEq] at hiff
      simp only [Except.ok.injEq, selected.injEq]
      constructor
      · rintro ⟨hu, hcount, hfound⟩
        obtain ⟨hpreferred, hcheck⟩ := hiff.mp ⟨hu, hfound⟩
        exact ⟨hpreferred, hcount.symm.trans hlength, hcheck⟩
      · rintro ⟨hpreferred, hcount, hcheck⟩
        obtain ⟨hu, hfound⟩ := hiff.mpr ⟨hpreferred, hcheck⟩
        exact ⟨hu, hlength.trans hcount.symm, hfound⟩
    next hbest =>
      have hscan : Policy.firstLeast _ (feasibleOf (check pool w options.cellMatch) variants) =
        none := hbest
      rw [hscan] at hiff
      simp only [reduceCtorEq, false_iff] at hiff
      simp only [Except.ok.injEq, reduceCtorEq, false_iff]
      exact fun h => hiff ⟨h.1, h.2.2⟩

/-- A choice rejects all variants exactly when there are some and each of them fails its check. -/
theorem exists_among_eq_infeasible_iff :
    (∃ rejections, among policy variants pool w options = .ok (.infeasible rejections)) ↔
      variants ≠ [] ∧ ∀ v ∈ variants, ∃ obstacle,
        check pool w options.cellMatch v = .error obstacle := by
  have hnone : feasibleOf (check pool w options.cellMatch) variants = [] ↔
      ∀ v ∈ variants, ∃ obstacle, check pool w options.cellMatch v = .error obstacle := by
    rw [← List.length_eq_zero_iff, length_feasibleOf, List.length_eq_zero_iff,
      List.filter_eq_nil_iff]
    refine forall₂_congr fun v _ => ?_
    cases check pool w options.cellMatch v <;> simp [Except.isOk, Except.toBool]
  rw [← hnone]
  refine (exists_congr fun rejections => among_eq_infeasible_iff).trans ?_
  simp only [forall₂_rejection_iff]
  exact ⟨fun ⟨_, hne, hempty, _⟩ => ⟨hne, hempty⟩, fun h => ⟨_, h.1, h.2, rfl⟩⟩

/-- A choice selects some variant exactly when there is a feasible one. -/
theorem exists_among_eq_selected_iff :
    (∃ v count coverage,
        among policy variants pool w options = .ok (.selected v count coverage)) ↔
      variants.filter (canRun pool w options.cellMatch) ≠ [] := by
  constructor
  · rintro ⟨v, count, coverage, h⟩
    have hbest := (among_eq_selected_iff.mp h).1
    exact List.ne_nil_of_mem (Policy.mem_of_firstLeast hbest)
  · intro hne
    obtain ⟨v, hbest⟩ := Option.ne_none_iff_exists'.mp (mt Policy.firstLeast_eq_none_iff.mp hne)
    have hv := (List.mem_filter.mp (Policy.mem_of_firstLeast hbest)).2
    obtain ⟨coverage, hcheck⟩ := isOk_iff.mp hv
    exact ⟨v, _, coverage, among_eq_selected_iff.mpr ⟨hbest, rfl, hcheck⟩⟩

end Outcome

/-- Without criteria of its own, a choice follows the criteria in common use. -/
theorem policy_of_criteria (criteria : Option (List Criterion)) (fastest : Bool) :
    (criteria.map Policy.ofCriteria).getD (.standard fastest) =
      .ofCriteria (criteria.getD (Policy.standardCriteria fastest)) := by
  cases criteria with
  | none => exact Policy.standard_eq_ofCriteria fastest
  | some chain => rfl

/-- Policies that rank the feasible variants alike lead to the same choice. -/
theorem among_congr {policy policy' : Option Policy} {variants : List Variant}
    {pool : List Profile} {w : Window} {options : ChoiceOptions}
    (h : ∀ a ∈ variants.filter (canRun pool w options.cellMatch),
      ∀ b ∈ variants.filter (canRun pool w options.cellMatch),
        (policy.getD (.standard options.fastest)).compare a b =
          (policy'.getD (.standard options.fastest)).compare a b) :
    among policy variants pool w options = among policy' variants pool w options := by
  have hfeasible : ∀ item ∈ feasibleOf (check pool w options.cellMatch) variants,
      item.1 ∈ variants.filter (canRun pool w options.cellMatch) := fun item hitem =>
    map_fst_feasibleOf ▸ List.mem_map_of_mem hitem
  have hscan : Policy.firstLeast
      (fun a b => (policy.getD (.standard options.fastest)).compare a.1 b.1)
        (feasibleOf (check pool w options.cellMatch) variants) =
      Policy.firstLeast (fun a b => (policy'.getD (.standard options.fastest)).compare a.1 b.1)
        (feasibleOf (check pool w options.cellMatch) variants) :=
    Policy.firstLeast_congr fun a ha b hb => h a.1 (hfeasible a ha) b.1 (hfeasible b hb)
  rw [among, among]
  refine ite_congr rfl (fun _ => rfl) fun _ => ?_
  unfold check at hscan
  simp only [hscan]

/-- What a choice in a window goes by: who counts, what can run, what is in the way of the others,
and the whole numbers behind the criteria. -/
structure Grounds (pool : List Profile) (w : Window) (mode : CellMatch) : Prop where
  /-- The operators are the profiles of the pool that are operators and count, as listed. -/
  operators : operatorsDuring pool w = pool.filter fun p => p.kind = .operator ∧ p.Counts w
  /-- A variant can run when its cells are served and these operators cover its requirements. -/
  runs (v : Variant) (coverage : Coverage) : check pool w mode v = .ok coverage ↔
    v.CellsServed pool w mode ∧
      Coverage.ofPool v.requirements (operatorsDuring pool w) = .ok coverage
  /-- A variant fails by what is in its way. -/
  fails (v : Variant) (obstacle : Obstacle) : check pool w mode v = .error obstacle ↔
    v.Hindered pool (operatorsDuring pool w) w mode obstacle
  /-- The fastest variant takes the fewest minutes. -/
  fastest (v : Variant) : Criterion.fastest.key v = v.minutes
  /-- A preferred variant is at zero and any other one at one. -/
  primary (v : Variant) : Criterion.primary.key v = if v.primary = true then 0 else 1
  /-- The leanest variant asks for the fewest operators over all its requirements, as far as 32 bits
  hold the sum. -/
  leanest (v : Variant) :
    Criterion.leanest.key v = (v.requirements.map (·.quantity)).sum % 0x100000000
  /-- A variant that can run asks for no more operators than there are. -/
  total_le (v : Variant) (coverage : Coverage) (hruns : check pool w mode v = .ok coverage) :
    (v.requirements.map (·.quantity)).sum ≤ (operatorsDuring pool w).length
  /-- So 32 bits hold its sum, unless there are more operators than they count. -/
  leanest_of_runs (v : Variant) (coverage : Coverage) (hruns : check pool w mode v = .ok coverage)
    (hfew : (operatorsDuring pool w).length < 0x100000000) :
    Criterion.leanest.key v = (v.requirements.map (·.quantity)).sum

/-- Every choice has its grounds. -/
theorem grounds (pool : List Profile) (w : Window) (mode : CellMatch) : Grounds pool w mode where
  operators := operatorsDuring_eq_filter pool w
  runs _ _ := Variant.feasibility_eq_ok_iff
  fails _ _ := Variant.feasibility_eq_error_iff
  fastest _ := rfl
  primary _ := rfl
  leanest := Variant.headcount_eq
  total_le _ _ := Variant.total_le_of_feasibility
  leanest_of_runs v _ hruns hfew := by
    have hle := Variant.total_le_of_feasibility hruns
    exact v.headcount_eq.trans (Nat.mod_eq_of_lt (hle.trans_lt hfew))

/-- The answer of a filter and then a lexicographic minimum by a chain of criteria. -/
structure FirstLeast (chain : List Criterion) (variants feasible : List Variant)
    (check : Variant → Except Obstacle Coverage) (answer : Except Fault Choice) : Prop where
  /-- Only an empty list is at fault. -/
  fault (fault : Fault) : answer = .error fault ↔ variants = [] ∧ fault = .noVariants
  /-- All are rejected when there are some and each of them fails. -/
  rejects : (∃ rejections, answer = .ok (.infeasible rejections)) ↔
    variants ≠ [] ∧ ∀ v ∈ variants, ∃ obstacle, check v = .error obstacle
  /-- There is one rejection for each variant in turn, with the obstacle that it failed by. -/
  rejections (rejections : List Rejection) : answer = .ok (.infeasible rejections) ↔
    variants ≠ [] ∧ List.Forall₂ (fun v r => r.variant = v.id ∧ check v = .error r.obstacle)
      variants rejections
  /-- One is selected when some can run. -/
  selects : (∃ v count coverage, answer = .ok (.selected v count coverage)) ↔ feasible ≠ []
  /-- The one selected is the first listed of those that can run with the lowest keys in order and
  then the lowest id, with the number of these and its own coverage. -/
  selected (v : Variant) (count : Nat) (coverage : Coverage) :
    answer = .ok (.selected v count coverage) ↔
      (v ∈ feasible ∧
        (∀ u ∈ feasible, toLex (chain.map (·.key v), v.id) ≤ toLex (chain.map (·.key u), u.id)) ∧
        ∀ u ∈ feasible, toLex (chain.map (·.key u), u.id) ≤ toLex (chain.map (·.key v), v.id) →
          feasible.idxOf v ≤ feasible.idxOf u) ∧
      count = feasible.length ∧ check v = .ok coverage
  /-- It is the one that the policy prefers among those that can run. -/
  preferred (v : Variant) (count : Nat) (coverage : Coverage)
    (h : answer = .ok (.selected v count coverage)) :
    (Policy.ofCriteria chain).best? feasible = some v

/-- A choice by built-in criteria, those in common use or a chain of the caller's, is a filter and
then a lexicographic minimum. It fails exactly for an empty list. It rejects exactly when no variant
of a list that is not empty can run, with one rejection for each variant in turn. Otherwise it
selects the first listed one of the feasible variants in the lowest place, by the keys of the
criteria in order and then by id, with the number of feasible variants and its own coverage; and
this is the variant that the policy prefers among the feasible ones. What can run is told by the
operators of the pool that count in the window and by the cells that are served, and the keys are
the minutes, whether a variant is preferred, and the operators it asks for in all. Scores in place
of the keys, with ties within the tolerance, lead to the same choice as long as the minutes are
exact. -/
theorem among_first_least (criteria : Option (List Criterion)) (variants : List Variant)
    (pool : List Profile) (w : Window) (options : ChoiceOptions) :
    let chain := criteria.getD (if options.fastest then [.fastest, .primary] else [.primary])
    let check := check pool w options.cellMatch
    let feasible := variants.filter fun v => (check v).isOk
    let answer := among (criteria.map Policy.ofCriteria) variants pool w options
    Grounds pool w options.cellMatch ∧ FirstLeast chain variants feasible check answer ∧
      ((.fastest ∈ chain → ∀ v ∈ feasible, v.minutes < 2 ^ 53) →
        among (some (Policy.ofScores chain)) variants pool w options = answer) := by
  intro chain check feasible answer
  have hpolicy : (criteria.map Policy.ofCriteria).getD (.standard options.fastest) =
      .ofCriteria chain := policy_of_criteria criteria options.fastest
  have hselected : ∀ v count coverage, answer = .ok (.selected v count coverage) ↔
      (Policy.ofCriteria chain).best? feasible = some v ∧ count = feasible.length ∧
        check v = .ok coverage := by
    intro v count coverage
    rw [among_eq_selected_iff, hpolicy]
    rfl
  refine ⟨grounds pool w options.cellMatch, ?_, fun hminutes => ?_⟩
  · exact {
      fault := fun _ => among_eq_error_iff
      rejects := exists_among_eq_infeasible_iff
      rejections := fun _ => among_eq_infeasible_iff
      selects := exists_among_eq_selected_iff
      selected := fun v count coverage =>
        (hselected v count coverage).trans (and_congr_left fun _ => Policy.best?_eq_some_iff_first)
      preferred := fun v count coverage h => ((hselected v count coverage).mp h).1 }
  · have hkeys : ∀ v ∈ feasible, ∀ c ∈ chain, c.key v < 2 ^ 53 := by
      intro v hv c hc
      cases c with
      | fastest => exact hminutes hc v hv
      | primary =>
        rw [Criterion.key]
        split <;> decide
      | leanest =>
        rw [Criterion.key, v.headcount_eq]
        omega
    refine among_congr fun a ha b hb => ?_
    rw [hpolicy]
    exact Policy.compare_ofScores (hkeys a ha) (hkeys b hb)

/-- A shift of eight hours, from the sixth hour on. -/
def shift : Window := ⟨21600000, 50400000, by decide, by decide, by decide⟩

/-- A welder of some level. -/
def welder (id : String) (level : Level) : Profile :=
  (Profile.ofKind .operator id).withSkill "welding" level

/-- Two welders and the bench. -/
def weldShop : List Profile :=
  [welder "ann" .expert, welder "bo" .basic, Profile.ofKind .cell "bench"]

/-- A weld by one welder, which is preferred. -/
def soloWeld : Variant :=
  ⟨"solo", "weld", 60, [.single "welding" .basic], NameSet.empty.insert "bench", true, by decide⟩

/-- A weld by two welders, which is faster. -/
def duoWeld : Variant :=
  ⟨"duo", "weld", 40, [⟨"welding", .basic, 2, by decide⟩], NameSet.empty.insert "bench", false,
    by decide⟩

/-- A weld by three welders, which is still faster. -/
def trioWeld : Variant :=
  ⟨"trio", "weld", 30, [⟨"welding", .basic, 3, by decide⟩], NameSet.empty.insert "bench", false,
    by decide⟩

/-- A weld by two welders without tools, which takes longest. -/
def handWeld : Variant :=
  { duoWeld with id := "by hand", minutes := 100, minutes_pos := by decide }

/-- Two welders who count in the shift, one who is back just in time; one who leaves before its end,
one who is out of use, and a machine that welds; and the bench. -/
def crowdedShop : List Profile :=
  [{ welder "dee" .master with active := false },
    { welder "bo" .basic with
      unavailable := [⟨14400000, 21600000, by decide, by decide, by decide⟩] },
    { welder "cy" .expert with
      unavailable := [⟨46800000, 54000000, by decide, by decide, by decide⟩] },
    (Profile.ofKind .machine "arm").withSkill "welding" .master, welder "ann" .expert,
    Profile.ofKind .cell "bench"]

/-- All four ways to weld. -/
def welds : List Variant := [handWeld, trioWeld, soloWeld, duoWeld]

/-- The trio cannot run with two welders. Of the others the duo is the fastest, the solo the
preferred one and the leanest, and neither has the lowest id; scores say the same. -/
theorem among_first_least_weld :
    let answer (criteria : Option (List Criterion)) (fastest : Bool) :=
      among (criteria.map Policy.ofCriteria) welds crowdedShop shift ⟨fastest, .allListed⟩
    let byOne : Coverage := ⟨[⟨.single "welding" .basic, ["ann"]⟩]⟩
    let byTwo : Coverage := ⟨[⟨⟨"welding", .basic, 2, by decide⟩, ["ann", "bo"]⟩]⟩
    (operatorsDuring crowdedShop shift).map (·.id) = ["bo", "ann"] ∧
      answer none false = .ok (.selected soloWeld 3 byOne) ∧
      answer (some [.leanest]) true = .ok (.selected soloWeld 3 byOne) ∧
      answer none true = .ok (.selected duoWeld 3 byTwo) ∧
      (∀ u ∈ [handWeld, soloWeld, duoWeld],
        toLex ([40, 1], "duo") ≤ toLex ([u.minutes, if u.primary then 0 else 1], u.id)) ∧
      among (some (Policy.ofScores [.fastest, .primary])) welds crowdedShop shift
        ⟨true, .allListed⟩ = .ok (.selected duoWeld 3 byTwo) := by
  have hoperators : (operatorsDuring crowdedShop shift).map (·.id) = ["bo", "ann"] := by cbv
  have hfeasible : welds.filter (canRun crowdedShop shift .allListed) =
      [handWeld, soloWeld, duoWeld] := by cbv
  have hpreferred : among none welds crowdedShop shift ⟨false, .allListed⟩ =
      .ok (.selected soloWeld 3 ⟨[⟨.single "welding" .basic, ["ann"]⟩]⟩) := by cbv
  have hleanest : among (some (.ofCriteria [.leanest])) welds crowdedShop shift
      ⟨true, .allListed⟩ =
        .ok (.selected soloWeld 3 ⟨[⟨.single "welding" .basic, ["ann"]⟩]⟩) := by cbv
  have hfastest : among none welds crowdedShop shift ⟨true, .allListed⟩ =
      .ok (.selected duoWeld 3 ⟨[⟨⟨"welding", .basic, 2, by decide⟩, ["ann", "bo"]⟩]⟩) := by cbv
  obtain ⟨-, hleast, hscores⟩ :=
    among_first_least none welds crowdedShop shift ⟨true, .allListed⟩
  obtain ⟨⟨-, hlowest, -⟩, -⟩ := (hleast.selected _ _ _).mp hfastest
  have hminutes : ∀ v ∈ welds.filter (canRun crowdedShop shift .allListed), v.minutes < 2 ^ 53 := by
    rw [hfeasible]
    decide
  exact ⟨hoperators, hpreferred, hleanest, hfastest, hfeasible ▸ hlowest,
    (hscores fun _ => hminutes).trans hfastest⟩

end Choice

end ShopFloor
