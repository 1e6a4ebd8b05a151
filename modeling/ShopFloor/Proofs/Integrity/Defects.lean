import Mathlib
import ShopFloor.Proofs.Integrity.Cells
import ShopFloor.Proofs.Names

/-!
# Every defect, once

What is reported of variants and a pool is counted against the input itself: an id that occurs
several times is reported once less, and every other defect once for each of its causes. A scan
reports an id when it was seen before, and so each of its occurrences but the first, in any order.
The variants are scanned task by task, so an id of two tasks is no repetition, no task is without
variants, and none lists those of another. So input is free of reports exactly when it has no
defect, and an input in another order has the same reports. Main statements: `ofProfiles_perm`,
`count_ofTask`, `count_ofInput`, `defects_reported_once`.
-/

namespace ShopFloor.Integrity

/-- The ids of a list that occurred before, in the list or among those seen. -/
def repeats (seen : List String) : List String → List String
  | [] => []
  | id :: rest => (if seen.contains id then [id] else []) ++ repeats (id :: seen) rest

/-- Every occurrence of an id is a repetition, apart from the first one if the id was not seen. -/
theorem count_repeats (id : String) (seen ids : List String) :
    (repeats seen ids).count id = ids.count id - if id ∈ seen then 0 else 1 := by
  induction ids generalizing seen with
  | nil => rw [repeats, List.count_nil, Nat.zero_sub]
  | cons first rest ih =>
    rw [repeats, List.count_append, ih, List.count_cons]
    by_cases hid : first = id
    · subst hid
      by_cases hseen : first ∈ seen <;> simp [hseen]
      omega
    · have hother : id ≠ first := Ne.symm hid
      by_cases hseen : first ∈ seen <;> simp [hseen, hid, hother]

/-- Of a list alone, every occurrence of an id but the first is a repetition. -/
theorem count_repeats_nil (id : String) (ids : List String) :
    (repeats [] ids).count id = ids.count id - 1 := by
  rw [count_repeats, if_neg List.not_mem_nil]

/-- A conditional report on an id is a report on the id that is listed on the condition. -/
theorem reportIf_eq_map (condition : Bool) (report : String → Defect) (id : String) :
    reportIf condition (report id) = (if condition then [id] else []).map report := by
  cases condition <;> rfl

/-- What is reported of the first item of a scan comes before what is reported of the others, and
the two kinds of reports can be taken apart. -/
theorem append_perm_of_perm {again own reported repeated others : List Defect}
    (h : reported.Perm (repeated ++ others)) :
    (again ++ own ++ reported).Perm ((again ++ repeated) ++ (own ++ others)) := by
  rw [List.append_assoc, List.append_assoc]
  exact ((h.append_left own).trans (List.perm_append_comm_assoc _ _ _)).append_left again

/-- The reports of profiles are those of repeated ids and those of limits of zero. -/
theorem ofProfiles_perm (seen : List String) (pool : List Profile) :
    (ofProfiles seen pool).Perm
      ((repeats seen (pool.map (·.id))).map .duplicateResource ++
        pool.flatMap fun p => reportIf (p.maxConcurrent = 0) (.zeroCapacity p.id)) := by
  induction pool generalizing seen with
  | nil => exact List.Perm.refl _
  | cons p rest ih =>
    rw [ofProfiles, List.map_cons, repeats, List.map_append, List.flatMap_cons,
      reportIf_eq_map _ .duplicateResource]
    exact append_perm_of_perm (ih _)

/-- The reports of single variants under a task are those of repeated ids and those of variants of
other tasks. -/
theorem ofVariants_perm (task : String) (seen : List String) (variants : List Variant) :
    (ofVariants task seen variants).Perm
      ((repeats seen (variants.map (·.id))).map .duplicateVariant ++
        variants.flatMap fun v => reportIf (v.task ≠ task) (.wrongTask v.id v.task task)) := by
  induction variants generalizing seen with
  | nil => exact List.Perm.refl _
  | cons v rest ih =>
    rw [ofVariants, List.map_cons, repeats, List.map_append, List.flatMap_cons,
      reportIf_eq_map _ .duplicateVariant]
    exact append_perm_of_perm (ih _)

/-- What is reported for items on a condition is reported once for each item that meets it. -/
theorem count_flatMap_of_once {α : Type} {report : α → List Defect} {defect : Defect}
    {cause : α → Prop} [DecidablePred cause]
    (h : ∀ item, (report item).count defect = if cause item then 1 else 0) (items : List α) :
    (items.flatMap report).count defect = items.countP fun item => cause item := by
  induction items with
  | nil => rfl
  | cons item rest ih =>
    rw [List.flatMap_cons, List.count_append, h, ih, List.countP_cons, Nat.add_comm]
    simp only [decide_eq_true_eq]

/-- A key occurs as often as items have it. -/
theorem count_map_eq_countP {α β : Type} [DecidableEq β] (key : α → β) (items : List α)
    (value : β) : (items.map key).count value = items.countP fun item => key item = value := by
  rw [List.count, List.countP_map]
  exact List.countP_congr fun item _ => by simp

/-- A conditional report is the one defect on its condition. -/
theorem count_reportIf (condition : Bool) (defect other : Defect) :
    (reportIf condition defect).count other =
      if condition = true ∧ defect = other then 1 else 0 := by
  cases condition <;> simp [reportIf, List.count_singleton]

/-- How often a defect is due for a pool: once for each occurrence of an id but the first, and once
for each limit of zero. -/
def poolDue (pool : List Profile) : Defect → Nat
  | .duplicateResource id => (pool.countP fun p => p.id = id) - 1
  | .zeroCapacity id => pool.countP fun p => p.id = id ∧ p.maxConcurrent = 0
  | _ => 0

/-- How often a defect is due for the variants of a task: once for each occurrence of an id but the
first, and once for a number of preferred variants other than one. -/
def taskDue (task : String) (variants : List Variant) : Defect → Nat
  | .duplicateVariant id => (variants.countP fun v => v.id = id) - 1
  | .primaryCount other count =>
    if other = task ∧ count = variants.countP (·.primary) ∧ count ≠ 1 then 1 else 0
  | _ => 0

/-- How often a defect is due for the cells of variants: once for each variant with a cell that no
cell or machine of the pool serves. -/
def cellsDue (variants : List Variant) (pool : List Profile) : Defect → Nat
  | .unknownCell id cell => variants.countP fun v => v.id = id ∧ cell ∈ v.cells.names ∧
      ¬∃ p ∈ pool, p.kind ≠ .operator ∧ p.serves cell = true
  | _ => 0

/-- How often a defect is due: for the pool, for each task that variants belong to, and for their
cells. -/
def due (variants : List Variant) (pool : List Profile) (defect : Defect) : Nat :=
  poolDue pool defect +
    (∑ task ∈ (variants.map (·.task)).toFinset,
      taskDue task (variants.filter (·.task = task)) defect) +
    cellsDue variants pool defect

/-- A pool has the reports that are due. -/
theorem count_ofPool (pool : List Profile) (defect : Defect) :
    (ofPool pool).count defect = poolDue pool defect := by
  rw [ofPool, (ofProfiles_perm [] pool).count_eq, List.count_append,
    count_flatMap_of_once fun p => count_reportIf _ _ _]
  cases defect with
  | duplicateResource id =>
    have hinjective : Function.Injective Defect.duplicateResource := fun _ _ h => by cases h; rfl
    rw [List.count_map_of_injective _ _ hinjective, count_repeats_nil]
    simp [poolDue, count_map_eq_countP]
  | zeroCapacity id => simp [poolDue, List.count_eq_zero, and_comm]
  | _ => simp [poolDue, List.count_eq_zero]

/-- Variants of a task, of which there is at least one, have the reports that are due for them. -/
theorem count_ofTask {task : String} {variants : List Variant} (hlisted : variants ≠ [])
    (hown : ∀ v ∈ variants, v.task = task) (defect : Defect) :
    (ofTask task variants).count defect = taskDue task variants defect := by
  have hmisplaced : (variants.flatMap fun v =>
      reportIf (v.task ≠ task) (.wrongTask v.id v.task task)) = [] :=
    List.flatMap_eq_nil_iff.mpr fun v hv => by rw [hown v hv]; simp [reportIf]
  have hsome : variants.isEmpty = false := by simpa using hlisted
  rw [ofTask, hsome, List.count_append, List.count_append,
    (ofVariants_perm task [] _).count_eq, hmisplaced, List.append_nil, count_reportIf,
    count_reportIf]
  cases defect with
  | duplicateVariant id =>
    have hinjective : Function.Injective Defect.duplicateVariant := fun _ _ h => by cases h; rfl
    rw [List.count_map_of_injective _ _ hinjective, count_repeats_nil, count_map_eq_countP]
    simp [taskDue]
  | primaryCount other count =>
    have hcount : ¬variants.countP (·.primary) = 1 ∧
        task = other ∧ variants.countP (·.primary) = count ↔
        other = task ∧ count = variants.countP (·.primary) ∧ ¬count = 1 := by
      constructor
      · rintro ⟨hnotone, rfl, rfl⟩
        exact ⟨rfl, rfl, hnotone⟩
      · rintro ⟨rfl, rfl, hnotone⟩
        exact ⟨hnotone, rfl, rfl⟩
    have hids : (List.map Defect.duplicateVariant (repeats [] (variants.map (·.id)))).count
        (.primaryCount other count) = 0 := by simp [List.count_eq_zero]
    simp [taskDue, hcount, hids]
  | _ => simp [taskDue, List.count_eq_zero]

/-- A cell of a variant is reported once if no cell or machine serves it. -/
theorem count_unknownCells (pool : List Profile) (id cell : String) (v : Variant) :
    (unknownCells pool v).count (.unknownCell id cell) =
      if v.id = id ∧ cell ∈ v.cells.names ∧
        ¬∃ p ∈ pool, p.kind ≠ .operator ∧ p.serves cell = true then 1 else 0 := by
  have hinjective : Function.Injective (Defect.unknownCell v.id) := fun _ _ h => by cases h; rfl
  -- A set lists a cell once, so a variant reports it at most once.
  have honce : (unknownCells pool v).Nodup := (v.cells.nodup_names.filter _).map hinjective
  rw [honce.count]
  refine if_congr ?_ rfl rfl
  have hknown : isKnownCell pool cell = true ↔
      ∃ p ∈ pool, p.kind ≠ .operator ∧ p.serves cell = true := by simp [isKnownCell]
  rw [← hknown, unknownCells, List.mem_map]
  constructor
  · rintro ⟨reported, hreported, heq⟩
    cases heq
    simpa using List.mem_filter.mp hreported
  · rintro ⟨rfl, hcell, hunknown⟩
    exact ⟨cell, List.mem_filter.mpr ⟨hcell, by simpa using hunknown⟩, rfl⟩

/-- Variants have the reports of cells that are due. -/
theorem count_cells (variants : List Variant) (pool : List Profile) (defect : Defect) :
    (variants.flatMap (unknownCells pool)).count defect = cellsDue variants pool defect := by
  cases defect with
  | unknownCell id cell => exact count_flatMap_of_once (count_unknownCells pool id cell) variants
  | _ => simp [cellsDue, unknownCells, List.count_eq_zero]

/-- A task is listed exactly when variants belong to it. -/
theorem mem_tasksOf {variants : List Variant} {task : String} :
    task ∈ tasksOf variants ↔ task ∈ variants.map (·.task) :=
  NameSet.mem_names_ofList

/-- No task is listed twice. -/
theorem nodup_tasksOf (variants : List Variant) : (tasksOf variants).Nodup :=
  NameSet.nodup_names _

/-- A sum over the tasks listed is one over the tasks that variants belong to. -/
theorem sum_tasksOf (variants : List Variant) (value : String → Nat) :
    ((tasksOf variants).map value).sum = ∑ task ∈ (variants.map (·.task)).toFinset, value task := by
  have htasks : (tasksOf variants).toFinset = (variants.map (·.task)).toFinset := by
    ext task
    rw [List.mem_toFinset, List.mem_toFinset, mem_tasksOf]
  rw [← htasks, List.sum_toFinset value (nodup_tasksOf variants)]

/-- Every defect is reported as often as it is due. -/
theorem count_ofInput (variants : List Variant) (pool : List Profile) (defect : Defect) :
    (ofInput variants pool).count defect = due variants pool defect := by
  rw [ofInput, List.count_append, List.count_append, count_ofPool, count_cells, due,
    List.count_flatMap, ← sum_tasksOf]
  congr 3
  -- The variants that stand under a listed task are some, and all of them are its own.
  refine List.map_congr_left fun task htask => count_ofTask ?_ (fun v hv => ?_) defect
  · obtain ⟨v, hv, hvtask⟩ := List.mem_map.mp (mem_tasksOf.mp htask)
    exact List.ne_nil_of_mem (List.mem_filter.mpr ⟨hv, by simpa using hvtask⟩)
  · simpa using (List.mem_filter.mp hv).2

/-- Of the kinds of defects, two are reported only of the variants listed under a single task. -/
theorem not_mem_ofInput_of_kind {variants : List Variant} {pool : List Profile} {defect : Defect}
    (hkind : defect.kind = .emptyVariantSet ∨ defect.kind = .taskMismatch) :
    defect ∉ ofInput variants pool := by
  rw [← List.count_eq_zero, count_ofInput]
  cases defect with
  | noVariants task => simp [due, poolDue, taskDue, cellsDue]
  | wrongTask variant actual listed => simp [due, poolDue, taskDue, cellsDue]
  | _ => simp [Defect.kind] at hkind

/-- What is due does not depend on the order of the variants and of the pool. -/
theorem due_congr {variants variants' : List Variant} {pool pool' : List Profile}
    (hvariants : variants'.Perm variants) (hpool : pool'.Perm pool) (defect : Defect) :
    due variants' pool' defect = due variants pool defect := by
  have htasks : (variants'.map (·.task)).toFinset = (variants.map (·.task)).toFinset :=
    List.toFinset_eq_of_perm _ _ (hvariants.map _)
  have hown : ∀ task, taskDue task (variants'.filter (·.task = task)) defect =
      taskDue task (variants.filter (·.task = task)) defect := by
    intro task
    have hlisted := hvariants.filter (·.task = task)
    cases defect <;> simp only [taskDue, hlisted.countP_eq]
  have hofPool : poolDue pool' defect = poolDue pool defect := by
    cases defect <;> simp only [poolDue, hpool.countP_eq]
  have hofCells : cellsDue variants' pool' defect = cellsDue variants pool defect := by
    cases defect <;> simp only [cellsDue, hvariants.countP_eq, hpool.mem_iff]
  rw [due, due, hofPool, hofCells, htasks, Finset.sum_congr rfl fun task _ => hown task]

/-- Variants and a pool without defects. -/
structure Flawless (variants : List Variant) (pool : List Profile) : Prop where
  /-- Every cell of a variant is served by a cell or a machine. -/
  cells : ∀ v ∈ variants, ∀ cell ∈ v.cells.names,
    ∃ p ∈ pool, p.kind ≠ .operator ∧ p.serves cell = true
  /-- Every task that variants belong to has one preferred variant. -/
  primaries : ∀ task ∈ variants.map (·.task),
    (variants.filter (·.task = task)).countP (·.primary) = 1
  /-- Variants of a task have ids of their own. -/
  variantIds : ∀ task ∈ variants.map (·.task),
    ((variants.filter (·.task = task)).map (·.id)).Nodup
  /-- Resources have ids of their own. -/
  resourceIds : (pool.map (·.id)).Nodup
  /-- Every resource carries something. -/
  limits : ∀ p ∈ pool, p.maxConcurrent ≠ 0

/-- Keys are distinct exactly when none occurs again. -/
theorem nodup_map_iff {α : Type} {key : α → String} {items : List α} :
    (items.map key).Nodup ↔ ∀ id, (items.countP fun item => key item = id) - 1 = 0 := by
  rw [List.nodup_iff_count_le_one]
  refine forall_congr' fun id => ?_
  rw [count_map_eq_countP, Nat.sub_eq_zero_iff_le]

/-- Nothing is due for a pool exactly when its ids are distinct and no limit is zero. -/
theorem poolDue_eq_zero_iff {pool : List Profile} :
    (∀ defect, poolDue pool defect = 0) ↔
      (pool.map (·.id)).Nodup ∧ ∀ p ∈ pool, p.maxConcurrent ≠ 0 := by
  rw [nodup_map_iff]
  constructor
  · refine fun h => ⟨fun id => h (.duplicateResource id), fun p hp hzero => ?_⟩
    have hnone := List.countP_eq_zero.mp (h (.zeroCapacity p.id)) p hp
    simp [hzero] at hnone
  · rintro ⟨hids, hlimits⟩ defect
    cases defect with
    | duplicateResource id => exact hids id
    | zeroCapacity id => exact List.countP_eq_zero.mpr fun p hp => by simp [hlimits p hp]
    | _ => rfl

/-- Nothing is due for the variants of a task exactly when their ids are distinct and one of them is
preferred. -/
theorem taskDue_eq_zero_iff {task : String} {variants : List Variant} :
    (∀ defect, taskDue task variants defect = 0) ↔
      (variants.map (·.id)).Nodup ∧ variants.countP (·.primary) = 1 := by
  rw [nodup_map_iff]
  constructor
  · refine fun h => ⟨fun id => h (.duplicateVariant id), ?_⟩
    simpa [taskDue] using h (.primaryCount task (variants.countP (·.primary)))
  · rintro ⟨hids, hone⟩ defect
    cases defect with
    | duplicateVariant id => exact hids id
    | primaryCount other count =>
      refine if_neg ?_
      rintro ⟨-, rfl, hnotone⟩
      exact hnotone hone
    | _ => rfl

/-- Nothing is due for cells exactly when a cell or a machine serves each of them. -/
theorem cellsDue_eq_zero_iff {variants : List Variant} {pool : List Profile} :
    (∀ defect, cellsDue variants pool defect = 0) ↔
      ∀ v ∈ variants, ∀ cell ∈ v.cells.names,
        ∃ p ∈ pool, p.kind ≠ .operator ∧ p.serves cell = true := by
  constructor
  · intro h v hv cell hcell
    have hnone := List.countP_eq_zero.mp (h (.unknownCell v.id cell)) v hv
    by_contra hunserved
    exact hnone (decide_eq_true ⟨rfl, hcell, hunserved⟩)
  · intro h defect
    cases defect with
    | unknownCell id cell =>
      refine List.countP_eq_zero.mpr fun v hv hcause => ?_
      obtain ⟨-, hcell, hunserved⟩ := of_decide_eq_true hcause
      exact hunserved (h v hv cell hcell)
    | _ => rfl

/-- Nothing is reported exactly of variants and a pool without defects. -/
theorem ofInput_eq_nil_iff {variants : List Variant} {pool : List Profile} :
    ofInput variants pool = [] ↔ Flawless variants pool := by
  have hnothing : ofInput variants pool = [] ↔ ∀ defect, due variants pool defect = 0 := by
    simp only [List.eq_nil_iff_forall_not_mem, ← List.count_eq_zero, count_ofInput]
  have hparts : (∀ defect, due variants pool defect = 0) ↔
      (∀ defect, poolDue pool defect = 0) ∧
      (∀ task ∈ variants.map (·.task), ∀ defect,
        taskDue task (variants.filter (·.task = task)) defect = 0) ∧
      ∀ defect, cellsDue variants pool defect = 0 := by
    simp only [due, Nat.add_eq_zero_iff, Finset.sum_eq_zero_iff, List.mem_toFinset, and_assoc,
      forall_and]
    exact and_congr_right fun _ => and_congr_left fun _ =>
      ⟨fun h task htask defect => h defect task htask,
        fun h defect task htask => h task htask defect⟩
  rw [hnothing, hparts, poolDue_eq_zero_iff, cellsDue_eq_zero_iff]
  simp only [taskDue_eq_zero_iff]
  constructor
  · rintro ⟨⟨hids, hlimits⟩, htasks, hcells⟩
    exact ⟨hcells, fun task htask => (htasks task htask).2,
      fun task htask => (htasks task htask).1, hids, hlimits⟩
  · intro h
    exact ⟨⟨h.resourceIds, h.limits⟩,
      fun task htask => ⟨h.variantIds task htask, h.primaries task htask⟩, h.cells⟩

/-- For all variants and every pool, every defect is reported as often as it is due and nothing else
is reported: a resource id for each occurrence but the first, a limit of zero for each resource that
has it, a variant id for each occurrence within a task but the first, once each task whose number of
preferred variants is not one, and each cell of a variant that no cell or machine serves; never a
task without variants or a variant listed under another task. So nothing is reported exactly of
input without defects, and input in another order has the same reports. -/
theorem defects_reported_once (variants : List Variant) (pool : List Profile) :
    (∀ defect, (ofInput variants pool).count defect = due variants pool defect) ∧
    (∀ task, .noVariants task ∉ ofInput variants pool) ∧
    (∀ variant actual listed, .wrongTask variant actual listed ∉ ofInput variants pool) ∧
    (ofInput variants pool = [] ↔ Flawless variants pool) ∧
    ∀ (variants' : List Variant) (pool' : List Profile), variants'.Perm variants →
      pool'.Perm pool → (ofInput variants' pool').Perm (ofInput variants pool) := by
  refine ⟨count_ofInput variants pool, fun task => not_mem_ofInput_of_kind (.inl rfl),
    fun variant actual listed => not_mem_ofInput_of_kind (.inr rfl), ofInput_eq_nil_iff,
    fun variants' pool' hvariants hpool => ?_⟩
  refine List.perm_iff_count.mpr fun defect => ?_
  rw [count_ofInput, count_ofInput, due_congr hvariants hpool]

/-- Welds and a cut with one id: two of the welds are preferred and want a kiln, the cut is not. -/
def workshopJobs : List Variant :=
  [{ Choice.soloWeld with id := "a", cells := .ofList ["kiln", "bench"] },
    { Choice.duoWeld with id := "a", task := "cut", cells := .empty },
    { Choice.soloWeld with id := "a", cells := .ofList ["kiln"] },
    { Choice.duoWeld with id := "a" }]

/-- A cell, a machine that carries nothing, and an operator of the same id that lists the kiln. -/
def workshopPool : List Profile :=
  [.ofKind .cell "bench", { Profile.ofKind .machine "press" with maxConcurrent := 0 },
    { Profile.ofKind .operator "press" with cells := .ofList ["kiln"] }]

/-- The weld is listed twice too often, the cut once; neither task has one preferred variant; an
operator serves no kiln. The lists read backwards have the same reports. -/
theorem defects_reported_once_workshop :
    ofInput workshopJobs workshopPool =
      [.zeroCapacity "press", .duplicateResource "press", .primaryCount "cut" 0,
        .duplicateVariant "a", .duplicateVariant "a", .primaryCount "weld" 2,
        .unknownCell "a" "kiln", .unknownCell "a" "kiln"] ∧
      due workshopJobs workshopPool (.duplicateVariant "a") = 2 ∧
      ¬Flawless workshopJobs workshopPool ∧
      workshopJobs.reverse.Perm workshopJobs ∧ workshopPool.reverse.Perm workshopPool ∧
      (ofInput workshopJobs.reverse workshopPool.reverse).Perm
        (ofInput workshopJobs workshopPool) := by
  have hreports : ofInput workshopJobs workshopPool =
      [.zeroCapacity "press", .duplicateResource "press", .primaryCount "cut" 0,
        .duplicateVariant "a", .duplicateVariant "a", .primaryCount "weld" 2,
        .unknownCell "a" "kiln", .unknownCell "a" "kiln"] := by cbv
  obtain ⟨hcount, -, -, hflawless, hperm⟩ := defects_reported_once workshopJobs workshopPool
  have hdue := hcount (.duplicateVariant "a")
  rw [hreports] at hdue hflawless
  have hjobs := List.reverse_perm workshopJobs
  have hpool := List.reverse_perm workshopPool
  exact ⟨hreports, hdue.symm, fun h => List.cons_ne_nil _ _ (hflawless.mpr h), hjobs, hpool,
    hperm _ _ hjobs hpool⟩

end ShopFloor.Integrity
