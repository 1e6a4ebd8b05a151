import Mathlib
import ShopFloor.Proofs.Engine.Run
import ShopFloor.Proofs.Names
import ShopFloor.Proofs.Selection.Reordering

/-!
# The registry after its history

The calls that change a registry are read off as a history, and what a registry holds after one is
said of the history alone: for each resource the latest profile, unless it was taken out since, and
for each task the latest variant of each id, the one registered longest ago first. Two histories
that agree on the latest profiles and variants can list the variants of a task in different orders,
and a task without variants can be known after one of them only. A choice tells no more of the two
than that. Main statements: `ofHistory_holdsLatest`, `ofHistory_last_write_wins`.
-/

namespace ShopFloor.Registry

/-- A call that changes a registry. -/
inductive Change where
  /-- A profile is put in. -/
  | upsert (profile : Profile)
  /-- The profile of a resource is taken out. -/
  | removeProfile (resource : String)
  /-- A variant is registered under its task. -/
  | register (v : Variant)
  /-- A task is registered without a variant. -/
  | registerTask (task : String)

namespace Change

/-- Whether a call is about the profile of a resource. -/
def concerns (resource : String) : Change → Bool
  | upsert profile => profile.id = resource
  | removeProfile other => other = resource
  | register _ => false
  | registerTask _ => false

/-- The profile that a call puts in. -/
def profile? : Change → Option Profile
  | upsert profile => some profile
  | removeProfile _ => none
  | register _ => none
  | registerTask _ => none

/-- The variant that a call registers under a task. -/
def variant? (task : String) : Change → Option Variant
  | register v => if v.task = task then some v else none
  | upsert _ => none
  | removeProfile _ => none
  | registerTask _ => none

/-- Whether a call makes a task known. -/
def introduces (task : String) : Change → Bool
  | register v => v.task = task
  | registerTask other => other = task
  | upsert _ => false
  | removeProfile _ => false

end Change

/-- The registry after one call. -/
def step (registry : Registry) : Change → Registry
  | .upsert profile => registry.upsert profile
  | .removeProfile resource => registry.removeProfile resource
  | .register v => registry.register v
  | .registerTask task => registry.registerTask task

/-- The registry after calls in turn, from one that knows nothing. -/
def ofHistory (history : List Change) : Registry := history.foldl step empty

/-- The profile of a resource that the latest call about it put in, if that call put one in. -/
def latestProfile? (history : List Change) (resource : String) : Option Profile :=
  (history.reverse.find? (·.concerns resource)).bind (·.profile?)

/-- Whether a task or a variant of it was registered. -/
def introduced (history : List Change) (task : String) : Bool := history.any (·.introduces task)

/-- The latest variant of an id that was registered under a task. -/
def latestVariant? (history : List Change) (task id : String) : Option Variant :=
  history.reverse.findSome? fun change => (change.variant? task).filter (·.id = id)

/-- How many calls there were since a variant of an id was last registered under a task. -/
def sinceRegistered (history : List Change) (task id : String) : Nat :=
  history.reverse.findIdx fun change => (change.variant? task).any (·.id = id)

/-- A registry holds what is latest in a history. -/
structure HoldsLatest (registry : Registry) (history : List Change) : Prop where
  /-- A task is unknown exactly when neither it nor a variant of it was registered. -/
  unknown_iff (task : String) : registry.variantsOf? task = none ↔ introduced history task = false
  /-- The variants of a task have different ids. -/
  nodup {task : String} {variants : List Variant} (h : registry.variantsOf? task = some variants) :
    (variants.map (·.id)).Nodup
  /-- The variants of a task are the latest ones of their ids. -/
  mem_iff {task : String} {variants : List Variant} (h : registry.variantsOf? task = some variants)
    (v : Variant) : v ∈ variants ↔ latestVariant? history task v.id = some v
  /-- The variants of a task are in the order of their latest registrations. -/
  order {task : String} {variants : List Variant} (h : registry.variantsOf? task = some variants) :
    variants.Pairwise fun u v =>
      sinceRegistered history task v.id < sinceRegistered history task u.id
  /-- The profiles are listed by ascending id. -/
  ascending : registry.pool.Pairwise fun p q => p.id < q.id
  /-- The profiles listed are the latest ones of their resources. -/
  mem_pool_iff (p : Profile) : p ∈ registry.pool ↔ latestProfile? history p.id = some p
  /-- The profile of a resource is the latest one. -/
  profile? (resource : String) : registry.profile? resource = latestProfile? history resource
  /-- The limit of a resource is that of its latest profile. -/
  limit? (resource : String) :
    registry.limit? resource = (latestProfile? history resource).map (·.maxConcurrent)

/-- Histories that leave the same profiles and the same variants. -/
structure SameLatest (history history' : List Change) : Prop where
  /-- The latest profile of each resource is the same. -/
  profile (resource : String) : latestProfile? history resource = latestProfile? history' resource
  /-- The latest variant of each id of each task is the same. -/
  variant (task id : String) : latestVariant? history task id = latestVariant? history' task id

/-- What an engine with the standard policy answers, after a history of its registry, to a request
for a choice from all registered resources. -/
def answerAfter (history : List Change) (engine : Engine) (task : String) (w : Window) :
    Except Fault Choice :=
  ({ engine with registry := ofHistory history, policy := none }.selectRegistered task w).2

variable {history history' : List Change} {task resource : String}

theorem ofHistory_concat (history : List Change) (change : Change) :
    ofHistory (history ++ [change]) = (ofHistory history).step change := by
  rw [ofHistory, List.foldl_append]
  rfl

/-! ## Profiles -/

theorem latestProfile?_concat (history : List Change) (change : Change) (resource : String) :
    latestProfile? (history ++ [change]) resource =
      if change.concerns resource then change.profile? else latestProfile? history resource := by
  rw [latestProfile?, List.reverse_append, List.reverse_singleton, List.singleton_append,
    List.find?_cons]
  cases change.concerns resource <;> rfl

/-- One call decides the profile of the resource it is about, and no other. -/
theorem profile?_step (registry : Registry) (change : Change) (resource : String) :
    (registry.step change).profile? resource =
      if change.concerns resource then change.profile? else registry.profile? resource := by
  cases change with
  | upsert profile =>
    simp [step, upsert, Registry.profile?, Change.concerns, Change.profile?, eq_comm]
  | removeProfile other =>
    simp [step, removeProfile, Registry.profile?, Change.concerns, Change.profile?, eq_comm]
  | register v => rfl
  | registerTask other =>
    simp only [step, registerTask, Change.concerns]
    split <;> rfl

theorem profile?_ofHistory (history : List Change) (resource : String) :
    (ofHistory history).profile? resource = latestProfile? history resource := by
  induction history using List.reverseRecOn with
  | nil => rfl
  | append_singleton history change ih =>
    rw [ofHistory_concat, profile?_step, latestProfile?_concat, ih]

/-- The latest profile of a resource has its id. -/
theorem id_of_latestProfile? {p : Profile} (h : latestProfile? history resource = some p) :
    p.id = resource := by
  obtain ⟨change, hchange, hp⟩ := Option.bind_eq_some_iff.mp h
  have hconcerns := List.find?_some hchange
  cases change with
  | upsert profile =>
    cases hp
    simpa [Change.concerns] using hconcerns
  | removeProfile other => cases hp
  | register v => cases hp
  | registerTask other => cases hp

theorem keyedBy_profiles (history : List Change) :
    (ofHistory history).profiles.KeyedBy (·.id) := fun _ hentry =>
  id_of_latestProfile? ((profile?_ofHistory _ _).symm.trans (NameMap.mem_entries_iff.mp hentry))

/-! ## Variants -/

/-- The variants that a registry lists for a task, which are none for one that is not known. -/
def listed (registry : Registry) (task : String) : List Variant :=
  (registry.variantsOf? task).getD []

theorem latestVariant?_concat (history : List Change) (change : Change) (task id : String) :
    latestVariant? (history ++ [change]) task id =
      ((change.variant? task).filter (·.id = id)).or (latestVariant? history task id) := by
  rw [latestVariant?, List.reverse_append, List.reverse_singleton, List.singleton_append,
    List.findSome?_cons]
  cases (change.variant? task).filter (·.id = id) <;> rfl

theorem sinceRegistered_concat (history : List Change) (change : Change) (task id : String) :
    sinceRegistered (history ++ [change]) task id =
      if (change.variant? task).any (·.id = id) then 0
      else sinceRegistered history task id + 1 := by
  rw [sinceRegistered, List.reverse_append, List.reverse_singleton, List.singleton_append,
    List.findIdx_cons]
  cases (change.variant? task).any (·.id = id) <;> rfl

/-- A call that registers a variant moves it to the end of its task, and no other call changes the
variants of a task. -/
theorem listed_step (registry : Registry) (change : Change) (task : String) :
    (registry.step change).listed task =
      match change.variant? task with
      | some v => (registry.listed task).filter (·.id ≠ v.id) ++ [v]
      | none => registry.listed task := by
  cases change with
  | upsert profile => rfl
  | removeProfile other => rfl
  | register v =>
    by_cases h : v.task = task
    · subst h
      simp [step, register, listed, variantsOf?, Change.variant?]
    · simp [step, register, listed, variantsOf?, Change.variant?, h, Ne.symm h]
  | registerTask other =>
    simp only [step, registerTask, Change.variant?, listed, variantsOf?]
    split
    next => rfl
    next hnew =>
      rw [NameMap.get?_insert]
      split
      next heq =>
        subst heq
        rw [NameMap.contains, Option.not_isSome_iff_eq_none] at hnew
        rw [hnew]
        rfl
      next => rfl

theorem variantsOf?_step_eq_none_iff (registry : Registry) (change : Change) (task : String) :
    (registry.step change).variantsOf? task = none ↔
      registry.variantsOf? task = none ∧ change.introduces task = false := by
  cases change with
  | upsert profile => simp [step, upsert, variantsOf?, Change.introduces]
  | removeProfile other => simp [step, removeProfile, variantsOf?, Change.introduces]
  | register v =>
    by_cases h : v.task = task
    · simp [step, register, variantsOf?, Change.introduces, h]
    · simp [step, register, variantsOf?, Change.introduces, h, Ne.symm h]
  | registerTask other =>
    simp only [step, registerTask, variantsOf?, Change.introduces]
    split
    next hold =>
      rw [NameMap.contains] at hold
      grind
    next => grind [NameMap.get?_insert]

theorem variantsOf?_ofHistory_eq_none_iff :
    (ofHistory history).variantsOf? task = none ↔ introduced history task = false := by
  induction history using List.reverseRecOn with
  | nil => exact iff_of_true rfl rfl
  | append_singleton history change ih =>
    rw [ofHistory_concat, variantsOf?_step_eq_none_iff, ih, introduced, introduced,
      List.any_append, List.any_cons, List.any_nil, Bool.or_false, Bool.or_eq_false_iff]

/-- The variants listed for a task are the latest ones of their ids. -/
theorem mem_listed_ofHistory_iff {v : Variant} :
    v ∈ (ofHistory history).listed task ↔ latestVariant? history task v.id = some v := by
  induction history using List.reverseRecOn with
  | nil => exact iff_of_false List.not_mem_nil (Option.some_ne_none v ∘ Eq.symm)
  | append_singleton history change ih =>
    rw [ofHistory_concat, listed_step, latestVariant?_concat]
    cases change.variant? task with
    | none => simpa using ih
    | some u =>
      by_cases h : u.id = v.id
      · rw [Option.filter_some_pos (by simpa using h)]
        simp [h, eq_comm]
      · have hne : v ≠ u := fun heq => h (heq ▸ rfl)
        rw [Option.filter_some_neg (by simpa using h)]
        simp [Ne.symm h, hne, ih]

/-- The variants listed for a task are in the order of their latest registrations: a call that
registers one leaves the others in their order and is the latest of all. -/
theorem listed_ofHistory_pairwise (history : List Change) (task : String) :
    ((ofHistory history).listed task).Pairwise fun u v =>
      sinceRegistered history task v.id < sinceRegistered history task u.id := by
  induction history using List.reverseRecOn with
  | nil => exact List.Pairwise.nil
  | append_singleton history change ih =>
    rw [ofHistory_concat, listed_step]
    simp only [sinceRegistered_concat]
    cases change.variant? task with
    | none => simpa using ih
    | some last =>
      have hothers : ∀ v ∈ ((ofHistory history).listed task).filter (·.id ≠ last.id),
          last.id ≠ v.id := fun v hv => Ne.symm (by simpa using (List.mem_filter.mp hv).2)
      refine List.pairwise_append.mpr ⟨?_, List.pairwise_singleton _ _, fun u hu v hv => ?_⟩
      · refine (ih.filter _).imp_of_mem fun {u v} hu hv hlt => ?_
        simp [hothers u hu, hothers v hv, hlt]
      · rw [List.mem_singleton.mp hv]
        simp [hothers u hu]

theorem nodup_listed_ofHistory (history : List Change) (task : String) :
    (((ofHistory history).listed task).map (·.id)).Nodup :=
  List.pairwise_map.mpr ((listed_ofHistory_pairwise history task).imp fun {u v} hlt heq => by
    rw [heq] at hlt
    exact lt_irrefl _ hlt)

theorem listed_eq_of_variantsOf? {registry : Registry} {variants : List Variant}
    (h : registry.variantsOf? task = some variants) : registry.listed task = variants := by
  rw [listed, h, Option.getD_some]

/-! ## What is latest -/

/-- After every history a registry holds what is latest in it. -/
theorem ofHistory_holdsLatest (history : List Change) :
    (ofHistory history).HoldsLatest history where
  unknown_iff task := variantsOf?_ofHistory_eq_none_iff
  nodup h := listed_eq_of_variantsOf? h ▸ nodup_listed_ofHistory history _
  mem_iff h v := listed_eq_of_variantsOf? h ▸ mem_listed_ofHistory_iff
  order h := listed_eq_of_variantsOf? h ▸ listed_ofHistory_pairwise history _
  ascending := (keyedBy_profiles history).ascending
  mem_pool_iff p := by
    rw [pool, (keyedBy_profiles history).mem_values_iff, ← profile?_ofHistory, Registry.profile?]
  profile? := profile?_ofHistory history
  limit? resource := by rw [limit?, profile?_ofHistory]

theorem SameLatest.profiles_eq (h : SameLatest history history') :
    (ofHistory history).profiles = (ofHistory history').profiles := by
  refine NameMap.ext_get? fun resource => ?_
  have hprofile := h.profile resource
  rwa [← profile?_ofHistory, ← profile?_ofHistory] at hprofile

/-- The variants of a task are the same ones, in an order of their own. -/
theorem SameLatest.listed_perm (h : SameLatest history history') (task : String) :
    ((ofHistory history').listed task).Perm ((ofHistory history).listed task) := by
  refine (List.perm_ext_iff_of_nodup (.of_map _ (nodup_listed_ofHistory history' task))
    (.of_map _ (nodup_listed_ofHistory history task))).mpr fun v => ?_
  rw [mem_listed_ofHistory_iff, mem_listed_ofHistory_iff, h.variant]

theorem variantsOf?_ofHistory (history : List Change) (task : String) :
    (ofHistory history).variantsOf? task =
      if introduced history task then some ((ofHistory history).listed task) else none := by
  have hknown : introduced history task = ((ofHistory history).variantsOf? task).isSome := by
    rw [Bool.eq_iff_iff, Option.isSome_iff_ne_none, ne_eq, variantsOf?_ofHistory_eq_none_iff,
      Bool.not_eq_false]
  rw [hknown, listed]
  cases (ofHistory history).variantsOf? task <;> rfl

theorem answerAfter_eq (history : List Change) (engine : Engine) (task : String) (w : Window) :
    answerAfter history engine task w =
      if introduced history task then
        Choice.among none ((ofHistory history).listed task) (ofHistory history).pool w
          engine.settings.options
      else .error (.unknownTask task) := by
  rw [answerAfter, Engine.selectRegistered, Engine.select_snd, Engine.choose,
    variantsOf?_ofHistory]
  cases introduced history task <;> rfl

/-- After every history a registry holds what is latest in it, and any two histories that leave the
same profiles and the same variants lead to the same choices under the standard policy: to the same
variant out of as many feasible ones with the same coverage, or to the same rejections up to their
order. A task without variants is answered by a fault, which tells whether the task is known. -/
theorem ofHistory_last_write_wins (history : List Change) :
    (ofHistory history).HoldsLatest history ∧
      ∀ history', SameLatest history history' → ∀ (engine : Engine) (task : String) (w : Window),
        (introduced history task = introduced history' task →
          Choice.Alike (answerAfter history engine task w) (answerAfter history' engine task w)) ∧
        (introduced history task = true → introduced history' task = false →
          answerAfter history engine task w = .error .noVariants ∧
            answerAfter history' engine task w = .error (.unknownTask task)) := by
  refine ⟨ofHistory_holdsLatest history, fun history' hsame engine task w => ?_⟩
  have hpool : (ofHistory history').pool = (ofHistory history).pool := by
    rw [pool, pool, hsame.profiles_eq]
  have hlisted := hsame.listed_perm task
  constructor
  · intro hknown
    rw [answerAfter_eq, answerAfter_eq, ← hknown, hpool]
    cases introduced history task with
    | true =>
      exact Choice.among_perm_variants none hlisted (nodup_listed_ofHistory history task) _ w _
    | false => exact .error (.unknownTask task)
  · intro hknown hunknown
    have hnone : (ofHistory history').listed task = [] := by
      rw [listed, variantsOf?_ofHistory, hunknown]
      rfl
    have hlisted : (ofHistory history).listed task = [] := (hnone ▸ hlisted).symm.eq_nil
    rw [answerAfter_eq, answerAfter_eq, hknown, hunknown, if_pos rfl, hlisted]
    exact ⟨rfl, rfl⟩

open Choice (welder weldShop soloWeld duoWeld shift)

/-- A weld shop whose duo was registered anew. -/
def reissued : List Change :=
  weldShop.map .upsert ++ [.register duoWeld, .register soloWeld, .register duoWeld]

/-- The same shop with its duo registered before its solo, after a guest has left. -/
def rearranged : List Change :=
  [.upsert (welder "guest" .expert), .register duoWeld, .removeProfile "guest",
    .register soloWeld] ++ weldShop.reverse.map .upsert

/-- The two shops have the same profiles and the same variants. -/
theorem sameLatest_reissued_rearranged : SameLatest reissued rearranged := by
  have hprofiles : (ofHistory reissued).profiles = (ofHistory rearranged).profiles := by cbv
  refine ⟨fun resource => ?_, fun task id => ?_⟩
  · rw [← profile?_ofHistory, ← profile?_ofHistory, Registry.profile?, hprofiles,
      Registry.profile?]
  · by_cases htask : "weld" = task
    · by_cases hduo : "duo" = id
      · subst htask hduo
        cbv
      · simp [latestVariant?, reissued, rearranged, weldShop, List.findSome?_cons, Change.variant?,
          duoWeld, soloWeld, htask, hduo]
    · simp [latestVariant?, reissued, rearranged, weldShop, Change.variant?, duoWeld, soloWeld,
        htask]

/-- The two shops list their variants in different orders and select the same one out of both. A
registered task without variants and one that is not known are told apart by their faults. -/
theorem ofHistory_last_write_wins_weld :
    (ofHistory reissued).variantsOf? "weld" = some [soloWeld, duoWeld] ∧
      (ofHistory rearranged).variantsOf? "weld" = some [duoWeld, soloWeld] ∧
      answerAfter reissued Engine.pressEngine "weld" shift =
        .ok (.selected soloWeld 2 ⟨[⟨.single "welding" .basic, ["ann"]⟩]⟩) ∧
      Choice.Alike (answerAfter reissued Engine.pressEngine "weld" shift)
        (answerAfter rearranged Engine.pressEngine "weld" shift) ∧
      answerAfter [.registerTask "weld"] Engine.pressEngine "weld" shift = .error .noVariants ∧
      answerAfter [] Engine.pressEngine "weld" shift = .error (.unknownTask "weld") := by
  have hempty : SameLatest [.registerTask "weld"] [] := ⟨fun _ => rfl, fun _ _ => rfl⟩
  refine ⟨by cbv, by cbv, by cbv, ?_, ?_⟩
  · exact ((ofHistory_last_write_wins reissued).2 rearranged sameLatest_reissued_rearranged
      Engine.pressEngine "weld" shift).1 (by cbv)
  · exact ((ofHistory_last_write_wins [.registerTask "weld"]).2 [] hempty Engine.pressEngine "weld"
      shift).2 (by cbv) (by cbv)

end ShopFloor.Registry
