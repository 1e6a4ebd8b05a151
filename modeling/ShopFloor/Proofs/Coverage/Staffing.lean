import Mathlib
import ShopFloor.Proofs.Coverage.BestFirst

/-!
# Requirements that could be covered

A pool could cover requirements when distinct profiles can be assigned to them at all. What the
best-first assignment covers could be covered, but not the other way round: it may spend someone on
a requirement that others meet as well, and then miss this one for another requirement. It misses
nothing where requirements do not contest anybody: whoever meets the one that is served first meets
the other one too, or nobody meets both. Main statements: `quantity_le_length_ranked`,
`isCovered_of_uncontested`, `isCovered_misses_assignment`.
-/

namespace ShopFloor.Coverage

/-- Whether covers assign distinct profiles of a pool to requirements. -/
structure Assigns (requirements : List Requirement) (pool : List Profile) (covers : List Cover) :
    Prop where
  /-- There is one cover for each requirement. -/
  requirements : (covers.map (·.requirement)).Perm requirements
  /-- Each requirement gets as many profiles as it asks for. -/
  count : ∀ c ∈ covers, c.holders.length = c.requirement.quantity
  /-- They are in the pool and meet the requirement. -/
  qualified : ∀ c ∈ covers, ∀ id ∈ c.holders, ∃ p ∈ pool, p.id = id ∧ p.meets c.requirement = true
  /-- None of them is used twice. -/
  distinct : (covers.flatMap (·.holders)).Nodup

/-- The order of the covers does not matter. -/
theorem Assigns.perm {requirements : List Requirement} {pool : List Profile}
    {covers covers' : List Cover} (h : Assigns requirements pool covers)
    (hperm : covers'.Perm covers) : Assigns requirements pool covers' :=
  ⟨(hperm.map _).trans h.requirements, fun c hc => h.count c (hperm.mem_iff.mp hc),
    fun c hc => h.qualified c (hperm.mem_iff.mp hc),
    (hperm.flatMap_right _).nodup_iff.mpr h.distinct⟩

/-- Whether two requirements are met by one profile of a pool. -/
def share (pool : List Profile) (r s : Requirement) : Bool :=
  pool.any fun p => p.meets r && p.meets s

/-- Two requirements are shared by who meets both. -/
theorem share_iff {pool : List Profile} {r s : Requirement} :
    share pool r s = true ↔ ∃ p ∈ pool, p.meets r = true ∧ p.meets s = true := by
  simp [share]

/-- Whether requirements do not contest anybody: of two that are met by one profile, everybody who
meets the one that is served first meets the other one too. -/
def Uncontested (requirements : List Requirement) (pool : List Profile) : Prop :=
  (strictestFirst requirements).Pairwise fun r s =>
    share pool r s = true → ∀ p ∈ pool, p.meets r = true → p.meets s = true

/-- Requirements of skills of which nobody holds two do not contest anybody. -/
theorem uncontested_of_one_skill {requirements : List Requirement} {pool : List Profile}
    (h : ∀ p ∈ pool, ∀ r ∈ requirements, ∀ s ∈ requirements, p.meets r = true →
      p.meets s = true → r.skill = s.skill) : Uncontested requirements pool := by
  have hmem : ∀ r ∈ strictestFirst requirements, r ∈ requirements := fun r =>
    (List.mergeSort_perm _ _).mem_iff.mp
  refine (strictestFirst_iff.mpr rfl).descending.imp_of_mem fun {r s} hr hs hle hshare p _ hp => ?_
  obtain ⟨q, hq, hqr, hqs⟩ := share_iff.mp hshare
  obtain ⟨level, hlevel, hmin⟩ := Profile.meets_iff.mp hp
  have hskill := h q hq r (hmem r hr) s (hmem s hs) hqr hqs
  exact Profile.meets_iff.mpr ⟨level, hskill ▸ hlevel, Nat.le_trans hle hmin⟩

section Counting

/-- The covers of some requirements use as many ids as these ask for. -/
theorem length_flatMap_filter {covers : List Cover}
    (hcount : ∀ c ∈ covers, c.holders.length = c.requirement.quantity)
    (which : Requirement → Bool) :
    ((covers.filter fun c => which c.requirement).flatMap (·.holders)).length =
      (((covers.map (·.requirement)).filter which).map (·.quantity)).sum := by
  rw [List.filter_map, List.map_map, List.length_flatMap]
  refine congrArg List.sum (List.map_congr_left fun c hc => ?_)
  exact hcount c (List.mem_of_mem_filter hc)

/-- Covers of some requirements can be listed in the order of the requirements. -/
theorem exists_perm_of_map_perm {covers : List Cover} {order : List Requirement}
    (h : (covers.map (·.requirement)).Perm order) :
    ∃ covers' : List Cover, covers'.Perm covers ∧ covers'.map (·.requirement) = order := by
  obtain ⟨covers', hcovers', hperm⟩ := List.perm_comp_forall₂ h.symm
    (List.forall₂_map_left_iff.mpr (List.forall₂_same.mpr fun (c : Cover) _ => rfl) :
      List.Forall₂ (fun r (c : Cover) => r = c.requirement) (covers.map (·.requirement)) covers)
  refine ⟨covers', hperm, ?_⟩
  rw [← List.forall₂_map_right_iff (f := Cover.requirement), List.forall₂_eq_eq_eq] at hcovers'
  exact hcovers'.symm

end Counting

section Complete

variable {pool : List Profile} {r : Requirement}

/-- In a pool with different ids, an id qualifies when its profile meets the requirement. -/
theorem qualifies_iff_of_nodup (hnodup : (pool.map (·.id)).Nodup) {id : String} :
    Qualifies pool r id ↔ ∃ p ∈ pool, p.id = id ∧ p.meets r = true := by
  simp only [Qualifies, ← get?_byId, get?_byId_eq_some_iff hnodup, and_assoc]

/-- Those who qualify for a requirement are left for it, or are used by a requirement that somebody
meets together with it. -/
theorem length_ranked_le {covers : List Cover} (hbest : AllBest pool [] covers) :
    (ranked pool [] r).length ≤ (ranked pool (covers.flatMap (·.holders)) r).length +
      ((covers.filter fun c => share pool c.requirement r).flatMap (·.holders)).length := by
  rw [← List.length_append]
  refine (List.subperm_of_subset nodup_ranked fun id hid => ?_).length_le
  obtain ⟨hqualifies, -⟩ := mem_ranked_iff.mp hid
  rw [List.mem_append]
  by_cases hused : id ∈ covers.flatMap (·.holders)
  · obtain ⟨c, hc, hholder⟩ := List.mem_flatMap.mp hused
    obtain ⟨earlier, hcover⟩ := exists_best_of_mem hbest hc
    obtain ⟨p, hfind, hmeets⟩ := hqualifies
    obtain ⟨q, hfind', hmeets'⟩ := hcover.qualified id hholder
    obtain rfl : q = p := Option.some.inj (hfind'.symm.trans hfind)
    have hshare : share pool c.requirement r = true :=
      share_iff.mpr ⟨q, List.mem_of_find?_eq_some hfind, hmeets', hmeets⟩
    exact .inr (List.mem_flatMap.mpr ⟨c, List.mem_filter.mpr ⟨hc, hshare⟩, hholder⟩)
  · exact .inl (mem_ranked_iff.mpr ⟨hqualifies, hused⟩)

/-- Where a requirement is covered together with others, and everybody meets it who meets one of the
others that somebody meets together with it, all the profiles of these qualify for it. -/
theorem length_add_quantity_le (hnodup : (pool.map (·.id)).Nodup) {requirements : List Requirement}
    {crews others : List Cover} {c : Cover}
    (hassigns : Assigns requirements pool (crews ++ c :: others))
    (hopen : ∀ d ∈ crews, share pool d.requirement c.requirement = true →
      ∀ p ∈ pool, p.meets d.requirement = true → p.meets c.requirement = true) :
    ((crews.filter fun d => share pool d.requirement c.requirement).flatMap (·.holders)).length +
      c.requirement.quantity ≤ (ranked pool [] c.requirement).length := by
  have hc : c ∈ crews ++ c :: others := List.mem_append_right _ List.mem_cons_self
  have hsub : ((crews.filter fun d => share pool d.requirement c.requirement).flatMap (·.holders) ++
      c.holders).Sublist ((crews ++ c :: others).flatMap (·.holders)) := by
    rw [List.flatMap_append, List.flatMap_cons, ← List.append_assoc]
    exact (List.filter_sublist.flatMap _ |>.append_right _).trans (List.sublist_append_left _ _)
  rw [← hassigns.count c hc, ← List.length_append]
  refine (List.subperm_of_subset (hassigns.distinct.sublist hsub) fun id hid => ?_).length_le
  refine mem_ranked_iff.mpr ⟨(qualifies_iff_of_nodup hnodup).mpr ?_, List.not_mem_nil⟩
  rcases List.mem_append.mp hid with hid | hid
  · obtain ⟨d, hd, hholder⟩ := List.mem_flatMap.mp hid
    obtain ⟨hd, hshare⟩ := List.mem_filter.mp hd
    obtain ⟨p, hp, rfl, hmeets⟩ := hassigns.qualified d (List.mem_append_left _ hd) id hholder
    exact ⟨p, hp, rfl, hopen d hd hshare p hp hmeets⟩
  · exact hassigns.qualified c hc id hid

end Complete

/-- What the best-first assignment covers could be covered. -/
theorem BestFirst.assigns {requirements : List Requirement} {pool : List Profile}
    {covers : List Cover} (h : BestFirst requirements pool covers) :
    Assigns requirements pool covers := by
  refine ⟨?_, fun c hc => ?_, fun c hc id hid => ?_, h.nodup⟩
  · rw [strictestFirst_iff.mp h.order]
    exact List.mergeSort_perm _ _
  · obtain ⟨earlier, hbest⟩ := exists_best_of_mem h.best hc
    exact hbest.count
  · obtain ⟨earlier, hbest⟩ := exists_best_of_mem h.best hc
    obtain ⟨p, hfind, hmeets⟩ := hbest.qualified id hid
    exact ⟨p, List.mem_of_find?_eq_some hfind, by simpa using List.find?_some hfind, hmeets⟩

/-- A pool falls short of no requirements that it could cover, where they do not contest anybody. -/
theorem ofPool_ne_error_of_uncontested {requirements : List Requirement} {pool : List Profile}
    (hnodup : (pool.map (·.id)).Nodup) (hopen : Uncontested requirements pool) {covers : List Cover}
    (hassigns : Assigns requirements pool covers) (missing : Shortfall) :
    ofPool requirements pool ≠ .error missing := by
  intro hshort
  obtain ⟨before, after, served, horder, hserved, hbest, hfound, hfew⟩ :=
    ofPool_eq_error_iff.mp hshort
  rw [strictestFirst_iff] at horder
  -- the covers that could be, in the order in which requirements are served
  have hperm : (covers.map (·.requirement)).Perm (strictestFirst requirements) :=
    hassigns.requirements.trans (List.mergeSort_perm _ _).symm
  obtain ⟨listed, hlisted, hmap⟩ := exists_perm_of_map_perm hperm
  rw [← horder] at hmap
  obtain ⟨crews, rest, rfl, hcrews, hrest⟩ := List.map_eq_append_iff.mp hmap
  obtain ⟨c, others, rfl, hc, -⟩ := List.map_eq_cons_iff.mp hrest
  have hpairs : ∀ s ∈ before, share pool s c.requirement = true →
      ∀ p ∈ pool, p.meets s = true → p.meets c.requirement = true := by
    rw [Uncontested, ← horder, ← hc] at hopen
    exact fun s hs => (List.pairwise_append.mp hopen).2.2 s hs _ List.mem_cons_self
  have hneeded := length_add_quantity_le hnodup (hassigns.perm hlisted) fun d hd =>
    hpairs d.requirement (hcrews ▸ List.mem_map_of_mem hd)
  have hleft := length_ranked_le (r := c.requirement) hbest
  have hserves : ∀ d ∈ served, d.holders.length = d.requirement.quantity := fun d hd =>
    (exists_best_of_mem hbest hd).choose_spec.count
  have hcrew : ∀ d ∈ crews, d.holders.length = d.requirement.quantity := fun d hd =>
    (hassigns.perm hlisted).count d (List.mem_append_left _ hd)
  rw [length_flatMap_filter hserves (share pool · c.requirement), hserved, ← hcrews,
    ← length_flatMap_filter hcrew (share pool · c.requirement)] at hleft
  rw [hfound, ← hc] at hfew
  omega

/-- Whatever a pool covers could be covered. In a pool with different ids, requirements that do not
contest anybody are covered whenever they could be. -/
theorem isCovered_of_uncontested (requirements : List Requirement) (pool : List Profile) :
    (isCovered requirements pool = true → ∃ covers, Assigns requirements pool covers) ∧
    ((pool.map (·.id)).Nodup → Uncontested requirements pool →
      (∃ covers, Assigns requirements pool covers) → isCovered requirements pool = true) := by
  constructor
  · intro hcovered
    rw [isCovered] at hcovered
    cases hanswer : ofPool requirements pool with
    | ok coverage => exact ⟨_, (ofPool_eq_ok_iff.mp hanswer).assigns⟩
    | error missing =>
      rw [hanswer] at hcovered
      cases hcovered
  · rintro hnodup hopen ⟨covers, hassigns⟩
    rw [isCovered]
    cases hanswer : ofPool requirements pool with
    | ok coverage => rfl
    | error missing =>
      exact absurd hanswer (ofPool_ne_error_of_uncontested hnodup hopen hassigns missing)

/-- A welder and a fitter, of whom one is needed each. -/
def fitAndWeld : List Requirement := [.single "welding" .basic, .single "fitting" .basic]

/-- A pool of one with both skills and one who only welds, and who is behind by id. -/
def versatile : List Profile :=
  [operator "ann" [("welding", .basic), ("fitting", .basic)], operator "bo" [("welding", .basic)]]

/-- Where one fits and two weld, a fitter and two welders at two levels are found. -/
theorem isCovered_of_uncontested_specialists :
    let requirements : List Requirement :=
      [.single "welding" .basic, .single "fitting" .basic, .single "welding" .expert]
    let pool := [operator "ann" [("welding", .master)], operator "bo" [("welding", .basic)],
      operator "cy" [("fitting", .expert)]]
    let covers : List Cover := [⟨.single "welding" .basic, ["bo"]⟩,
      ⟨.single "fitting" .basic, ["cy"]⟩, ⟨.single "welding" .expert, ["ann"]⟩]
    (pool.map (·.id)).Nodup ∧ Uncontested requirements pool ∧ Assigns requirements pool covers ∧
      isCovered requirements pool = true := by
  intro requirements pool covers
  have hnodup : (pool.map (·.id)).Nodup := by decide
  have hopen : Uncontested requirements pool := uncontested_of_one_skill (by decide)
  have hassigns : Assigns requirements pool covers :=
    ⟨List.Perm.refl _, by decide, by decide, by decide⟩
  exact ⟨hnodup, hopen, hassigns,
    (isCovered_of_uncontested requirements pool).2 hnodup hopen ⟨covers, hassigns⟩⟩

/-- The best-first assignment spends the one who fits on a weld that the other could do as well, so
it does not cover what could be covered. -/
theorem isCovered_misses_assignment :
    (versatile.map (·.id)).Nodup ∧
      Assigns fitAndWeld versatile [⟨.single "welding" .basic, ["bo"]⟩,
        ⟨.single "fitting" .basic, ["ann"]⟩] ∧
      isCovered fitAndWeld versatile = false := by
  have hassigns : Assigns fitAndWeld versatile [⟨.single "welding" .basic, ["bo"]⟩,
      ⟨.single "fitting" .basic, ["ann"]⟩] := ⟨List.Perm.refl _, by decide, by decide, by decide⟩
  exact ⟨by decide, hassigns, by cbv⟩

end ShopFloor.Coverage
